/-
DigDht.Service.Service — one node (`src/service.rs`).

The state is the routing table and two provider stores of one type: the
AUTHORITATIVE store, which answers strangers, and the DISCOVERY CACHE,
which only this node reads. Every public operation is a function from the
state and its environment to the next state and what it did.

Environment. A clock reading is one per READ SITE of an operation,
numbered in program order (`clock 0`, `clock 1`, …), so time may pass
between two reads of one call. The transport is a `Swarm`: what each peer
answers to each request, given the contacts the running lookup has asked
before, and the order in which concurrent answers arrive. A `DhtError`
is the answer `none`; its text is not read by any operation. The `from`
contact of every RPC is this node's own and is left implicit.

Locks. Each operation is run without another one in between; the one
operation whose lock windows matter, `republish`, is taken apart in
`DigDht.Service.Interleaving`.

Panics. A table with `k = 0` panics on an insert; an operation that
panics replies `.panicked` and keeps what it had done. `absorbContacts`
cannot panic: at `k = 0` a lookup returns no contact.
-/
import DigDht.Content.ContentId
import DigDht.Lookup.IterativeFind
import DigDht.Service.Config
import DigDht.Wire.Message

namespace DigDht.Service

open Keyspace Record Routing Lookup Store Wire Content

/-- A peer to bootstrap from. -/
structure BootstrapPeer where
  peerId : PeerId
  addresses : List CandidateAddr
  deriving DecidableEq

/-- The transport, for the length of one lookup and the PUTs after it. -/
structure Swarm where
  rpc : List Contact → Contact → DhtRequest → Option DhtResponse
  arrival : List Contact → List Contact → List Contact
  arrival_perm : ∀ asked batch, (arrival asked batch).Perm batch

/-- What a service is built with and never changes. -/
structure NodeProfile where
  localId : PeerId
  localAddresses : List CandidateAddr
  config : DhtConfig
  deriving DecidableEq

structure DhtService extends NodeProfile where
  routing : RoutingTable
  providers : ProviderStore
  discovered : ProviderStore
  deriving DecidableEq

/-- A request and the contact it was sent to. -/
abbrev Sent := Contact × DhtRequest

/-! ## Merging provider lists -/

/-- The `retain` of `merge_dedup_by_provider`. -/
def dedupLive (now : Nat) : Finset String → List ProviderRecord → List ProviderRecord
  | _, [] => []
  | seen, r :: rest =>
    if r.isExpired now = false ∧ r.providerPeerId ∉ seen then
      r :: dedupLive now (insert r.providerPeerId seen) rest
    else
      dedupLive now seen rest

def mergeDedupByProvider (authoritative extra : List ProviderRecord) (now : Nat) :
    List ProviderRecord :=
  dedupLive now ∅ (authoritative ++ extra)

/-! ## The lookup, over the wire -/

/-- The query closure of `run_lookup`, on one response: records for
another key are dropped at the wire boundary. -/
def queryOutcome (contentKey : String) : Option DhtResponse → Option QueryOutcome
  | some (.providers providers closer) =>
    some { closer, providers := providers.filter fun r => r.contentKey = contentKey }
  | some (.nodes nodes) => some { closer := nodes, providers := [] }
  | _ => none

/-- The peers a lookup for `contentKey` meets. -/
def Swarm.peers (swarm : Swarm) (contentKey : String) : Peers where
  query asked contact :=
    queryOutcome contentKey (swarm.rpc asked contact (.findProviders contentKey))
  arrival := swarm.arrival
  arrival_perm := swarm.arrival_perm

section Operations

variable [Deps]

def BootstrapPeer.toContact (p : BootstrapPeer) : Contact :=
  Contact.new p.peerId p.addresses

/-- Insert in order; a panic ends the loop. -/
def insertAll : RoutingTable → List Contact → RoutingTable × Bool
  | rt, [] => (rt, true)
  | rt, c :: rest =>
    match rt.insert c with
    | (rt', .panicked) => (rt', false)
    | (rt', _) => insertAll rt' rest

namespace NodeProfile

/-- `self.local_id.to_hex()`. -/
def selfId (node : NodeProfile) : String :=
  Deps.toHex node.localId

def buildLocalRecord (node : NodeProfile) (target : Key) (now : Nat) : ProviderRecord :=
  ProviderRecord.new target node.localId node.localAddresses
    (saturatingAdd now node.config.providerTtlSecs)

/-- The record `announce_provider_with_collateral` builds. -/
def announcedRecord (node : NodeProfile) (content : ContentId)
    (unverifiedMirrorCoinId : Option Bytes32) (now : Nat) : ProviderRecord :=
  let record := node.buildLocalRecord content.toKey now
  match unverifiedMirrorCoinId with
  | none => record
  | some coinId => record.withUnverifiedMirrorCoinId coinId

/-- The record a republish puts: rebuilt, with the remembered pointer
attached. -/
def republishedRecord (node : NodeProfile) (pointer : Option String) (target : Key)
    (now : Nat) : ProviderRecord :=
  { node.buildLocalRecord target now with unverifiedMirrorCoinId := pointer }

/-- What `admit_verified_record` offers to the store. -/
def clampedRecord (node : NodeProfile) (record : ProviderRecord) (now : Nat) : ProviderRecord :=
  { record.normalized with
    expiresAt := min record.expiresAt (saturatingAdd now node.config.providerTtlSecs) }

/-- What `cache_discovered` makes of one record, if it caches it. -/
def cacheEntry (node : NodeProfile) (contentKey : String) (now : Nat) (record : ProviderRecord) :
    Option ProviderRecord :=
  if record.providerPeerId = node.selfId ∨ record.contentKey ≠ contentKey then none
  else
    let ceiling := saturatingAdd now node.config.discoveryCacheTtlSecs
    let entry := { record.normalized with expiresAt := min record.expiresAt ceiling }
    if entry.isExpired now then none else some entry

end NodeProfile

namespace DhtService

def new (localId : PeerId) (localAddresses : List CandidateAddr) (config : DhtConfig) :
    DhtService where
  localId := localId
  localAddresses := localAddresses
  config := config
  routing := RoutingTable.new localId config.k
  providers := ProviderStore.withLimits config.providerStoreLimits
  discovered := ProviderStore.withLimits config.discoveryCacheLimits

/-! ### Internals -/

def seedContacts (svc : DhtService) (target : Key) : List Contact :=
  svc.routing.closest target

def lookupParams (svc : DhtService) (target : Key) (stopOnProviders : Bool) : LookupParams where
  target := target
  k := svc.config.k
  alpha := svc.config.alpha
  stopOnProviders := stopOnProviders

/-- The walk of `run_lookup`; `iterative_find` returns `result` of it. -/
def runLookup (svc : DhtService) (swarm : Swarm) (target : Key) (seeds : List Contact)
    (stopOnProviders : Bool) : Walk × Exit :=
  (svc.lookupParams target stopOnProviders).walk (swarm.peers target.toHex) seeds

/-- The RPCs a walk toward `target` made. -/
def lookupRequests (target : Key) (w : Walk) : List Sent :=
  w.trace.map fun x => (x.1, .findProviders target.toHex)

def absorbContacts (svc : DhtService) (contacts : List Contact) : DhtService :=
  { svc with routing := contacts.foldl (fun rt c => (rt.insert c.capped).1) svc.routing }

/-- The peers `put_record_at` sends to. -/
def putTargets (svc : DhtService) (peers : List Contact) : List Contact :=
  peers.filter fun p => p.peerId ≠ svc.selfId

/-- `put_record_at`: how many peers accepted, and what was sent. -/
def putRecordAt (svc : DhtService) (swarm : Swarm) (asked peers : List Contact)
    (record : ProviderRecord) : Nat × List Sent :=
  let targets := svc.putTargets peers
  (targets.countP fun p => swarm.rpc asked p (.addProvider record) = some .addProviderOk,
    targets.map fun p => (p, .addProvider record))

def cacheDiscovered (svc : DhtService) (contentKey : String) (discovered : List ProviderRecord)
    (now : Nat) : DhtService :=
  { svc with
    discovered := (discovered.filterMap (svc.cacheEntry contentKey now)).foldl
      (fun cache entry => (cache.putAt entry now).1) svc.discovered }

/-- `admit_verified_record`; `none` is the panic of the routing insert. -/
def admitVerifiedRecord (svc : DhtService) (record : ProviderRecord) (now : Nat) :
    DhtService × Option PutOutcome :=
  let record := svc.clampedRecord record now
  let (providers, outcome) := svc.providers.putAt record now
  let svc := { svc with providers }
  match outcome, record.provider with
  | .accepted, some pid =>
    match svc.routing.insert (Contact.new pid record.addresses) with
    | (routing, .panicked) => ({ svc with routing }, none)
    | (routing, _) => ({ svc with routing }, some outcome)
  | _, _ => (svc, some outcome)

/-- Bucket `idx`'s bit of the distance, with random bytes below it. -/
def randomKeyInBucket (svc : DhtService) (idx : Fin 256) (random : Bytes32) : Key :=
  let bit := 255 - idx.val
  let byte := bit / 8
  let bitInByte := 7 - bit % 8
  let distance : Bytes32 := List.Vector.ofFn fun i =>
    if i.val < byte then 0
    else if i.val = byte then 1 <<< UInt8.ofNat bitInByte
    else random.get i
  ⟨List.Vector.zipWith (· ^^^ ·) svc.localId.bytes distance⟩

/-! ### Client operations -/

/-- The self-lookup of `bootstrap`, from the given seeds. -/
def bootstrap (svc : DhtService) (swarm : Swarm) (peers : List BootstrapPeer) :
    DhtService × Option Nat × List Sent :=
  match insertAll svc.routing (peers.map BootstrapPeer.toContact) with
  | (routing, false) => ({ svc with routing }, none, [])
  | (routing, true) =>
    let svc := { svc with routing }
    let target := Key.fromPeerId svc.localId
    let w := (svc.runLookup swarm target (peers.map BootstrapPeer.toContact) false).1
    let svc := svc.absorbContacts (w.result svc.config.k).closest
    (svc, some svc.routing.len, lookupRequests target w)

/-- Look up `target` from our own table and absorb what comes back; no
seeds, no lookup. The common part of `find_node`, `refresh_buckets`,
`announce_provider` and `republish`. -/
def searchAndAbsorb (svc : DhtService) (swarm : Swarm) (target : Key) :
    DhtService × Option Walk :=
  let seeds := svc.seedContacts target
  if seeds = [] then (svc, none)
  else
    let w := (svc.runLookup swarm target seeds false).1
    (svc.absorbContacts (w.result svc.config.k).closest, some w)

/-- `find_node`; `none` is `DhtError::NoPeers`. -/
def findNode (svc : DhtService) (swarm : Swarm) (peerId : PeerId) :
    DhtService × Option (List Contact) × List Sent :=
  let target := Key.fromPeerId peerId
  match svc.searchAndAbsorb swarm target with
  | (svc, none) => (svc, none, [])
  | (svc, some w) => (svc, some (w.result svc.config.k).closest, lookupRequests target w)

/-- `find_providers`. Clock sites: 0 the local reads, 1 the cache write,
2 the merge. -/
def findProviders (svc : DhtService) (clock : Nat → Nat) (swarm : Swarm) (content : ContentId) :
    DhtService × List ProviderRecord × List Sent :=
  let target := content.toKey
  let keyHex := target.toHex
  let localRecords := svc.providers.get keyHex (clock 0)
  let cached := svc.discovered.get keyHex (clock 0)
  if cached ≠ [] then (svc, mergeDedupByProvider localRecords cached (clock 0), [])
  else
    let seeds := svc.seedContacts target
    if seeds = [] then (svc, localRecords, [])
    else
      let w := (svc.runLookup swarm target seeds true).1
      let svc := svc.absorbContacts (w.result svc.config.k).closest
      let discovered := (FMap.values w.providers).map ProviderRecord.normalized
      (svc.cacheDiscovered keyHex discovered (clock 1),
        mergeDedupByProvider localRecords discovered (clock 2), lookupRequests target w)

def cachedProviders (svc : DhtService) (now : Nat) (content : ContentId) : List ProviderRecord :=
  svc.discovered.get content.toKey.toHex now

def forgetDiscovered (svc : DhtService) (content : ContentId) : DhtService × Nat :=
  let (discovered, dropped) := svc.discovered.removeKey content.toKey.toHex
  ({ svc with discovered }, dropped)

/-- The locked part of an announce: store, and remember for republish. -/
def storeAnnounced (svc : DhtService) (keyHex : String) (record : ProviderRecord) (now : Nat) :
    DhtService :=
  { svc with
    providers := (svc.providers.putAt record now).1.markAnnouncedWithCollateral keyHex
      record.unverifiedMirrorCoinId }

/-- The networked part of an announce and of a republish: PUT at the
closest peers that can be found. -/
def publish (svc : DhtService) (swarm : Swarm) (target : Key) (record : ProviderRecord) :
    DhtService × Nat × List Sent :=
  match svc.searchAndAbsorb swarm target with
  | (svc, none) => (svc, 0, [])
  | (svc, some w) =>
    let (accepted, sent) :=
      svc.putRecordAt swarm (w.trace.map Prod.fst) (w.result svc.config.k).closest record
    (svc, accepted, lookupRequests target w ++ sent)

/-- `announce_provider_with_collateral`. Clock sites: 0 the record, 1 the
put. -/
def announceProviderWithCollateral (svc : DhtService) (clock : Nat → Nat) (swarm : Swarm)
    (content : ContentId) (unverifiedMirrorCoinId : Option Bytes32) :
    DhtService × Nat × List Sent :=
  let target := content.toKey
  let record := svc.announcedRecord content unverifiedMirrorCoinId (clock 0)
  (svc.storeAnnounced target.toHex record (clock 1)).publish swarm target record

def withdrawProvider (svc : DhtService) (content : ContentId) : DhtService × Bool :=
  let (providers, was) := svc.providers.unmarkAnnounced content.toKey.toHex
  ({ svc with providers }, was)

def removeProviderRecord (svc : DhtService) (contentKey providerPeerId : String) :
    DhtService × Bool :=
  let (providers, removed) := svc.providers.remove contentKey providerPeerId
  ({ svc with providers }, removed)

def retractOwnProvider (svc : DhtService) (content : ContentId) : DhtService × Bool :=
  let keyHex := content.toKey.toHex
  let (providers, removedRecord) := svc.providers.remove keyHex svc.selfId
  let (providers, wasAnnounced) := providers.unmarkAnnounced keyHex
  ({ svc with providers }, removedRecord || wasAnnounced)

def holdersOf (svc : DhtService) (clock : Nat → Nat) (swarm : Swarm) (content : ContentId) :
    DhtService × List PeerId × List Sent :=
  let (svc, records, sent) := svc.findProviders clock swarm content
  (svc, records.filterMap ProviderRecord.provider, sent)

/-! ### Maintenance -/

/-- The loop of `republish`. The `i`-th key reads the clock at sites
`2 * i` (the record) and `2 * i + 1` (the put) and has a swarm of its own. -/
def republishFrom (svc : DhtService) (clock : Nat → Nat) (swarms : Nat → Swarm) :
    Nat → List String → DhtService × List ProviderRecord × List Sent
  | _, [] => (svc, [], [])
  | i, hex :: rest =>
    match parseKey hex with
    | none => republishFrom svc clock swarms (i + 1) rest
    | some target =>
      let record :=
        svc.republishedRecord (svc.providers.announcedCollateral hex) target (clock (2 * i))
      let stored := { svc with providers := (svc.providers.putAt record (clock (2 * i + 1))).1 }
      let (svc, _, sent) := stored.publish (swarms i) target record
      let (svc, records, sent') := republishFrom svc clock swarms (i + 1) rest
      (svc, record :: records, sent ++ sent')

/-- `republish`, over the work list in the order the map yields it. The
second component is the records put into the local store. -/
def republish (svc : DhtService) (clock : Nat → Nat) (swarms : Nat → Swarm)
    (keys : List String) : DhtService × Nat × List ProviderRecord × List Sent :=
  let (svc, records, sent) := svc.republishFrom clock swarms 0 keys
  (svc, keys.length, records, sent)

/-- The loop of `refresh_buckets`. -/
def refreshFrom (svc : DhtService) (random : Nat → Bytes32) (swarms : Nat → Swarm) :
    Nat → List (Fin 256) → DhtService × List Sent
  | _, [] => (svc, [])
  | i, idx :: rest =>
    let target := svc.randomKeyInBucket idx (random i)
    let (svc, w) := svc.searchAndAbsorb (swarms i) target
    let (svc, sent) := refreshFrom svc random swarms (i + 1) rest
    (svc, (w.map (lookupRequests target)).getD [] ++ sent)

def refreshBuckets (svc : DhtService) (random : Nat → Bytes32) (swarms : Nat → Swarm) :
    DhtService × Nat × List Sent :=
  let indices := svc.routing.nonEmptyBucketIndices
  let (svc, sent) := svc.refreshFrom random swarms 0 indices
  (svc, indices.length, sent)

/-- One instant for both sweeps. -/
def gc (svc : DhtService) (now : Nat) : DhtService × Nat :=
  let (providers, authoritative) := svc.providers.gc now
  let (discovered, cached) := svc.discovered.gc now
  ({ svc with providers, discovered }, authoritative + cached)

def ping (svc : DhtService) (swarm : Swarm) (peer : Contact) (nonce : UInt64) :
    DhtService × Bool :=
  if swarm.rpc [] peer (.ping nonce) = some (.pong nonce) then (svc, true)
  else ({ svc with routing := (svc.routing.remove peer.peerId).1 }, false)

/-! ### Serving side -/

/-- Fold the authenticated caller into the table; `none` is the panic. -/
def learnCaller (svc : DhtService) : Option Contact → Option DhtService
  | none => some svc
  | some c =>
    if c.peerId = svc.selfId then some svc
    else
      match svc.routing.insert c.capped with
      | (_, .panicked) => none
      | (routing, _) => some { svc with routing }

/-- The self-announce check fails: the caller is known and the record
names somebody else. -/
def namesAnother (callerPeerId : Option String) (record : ProviderRecord) : Bool :=
  callerPeerId.any (· ≠ record.providerPeerId)

/-- The answer to one request, the caller being learnt already. -/
def answer (svc : DhtService) (now : Nat) (callerPeerId : Option String) :
    DhtRequest → DhtService × Option DhtResponse
  | .ping nonce => (svc, some (.pong nonce))
  | .findNode target =>
    match parseKey target with
    | none => (svc, some (.error 2 "bad target key"))
    | some key => (svc, some (.nodes (svc.routing.closest key)))
  | .findProviders contentKey =>
    match parseKey contentKey with
    | none => (svc, some (.error 2 "bad content key"))
    | some key =>
      (svc, some (.providers (svc.providers.get key.toHex now) (svc.routing.closest key)))
  | .addProvider record =>
    if namesAnother callerPeerId record then
      (svc, some (.error 4 "add_provider: provider_peer_id must match the authenticated caller"))
    else
      match svc.admitVerifiedRecord record now with
      | (svc, none) => (svc, none)
      | (svc, some .accepted) => (svc, some .addProviderOk)
      | (svc, some .rejectedOverCapacity) => (svc, some (.error 3 "provider store over capacity"))

/-- `handle_request_from`; `none` is a panic. -/
def handleRequestFrom (svc : DhtService) (now : Nat) (caller : Option Contact)
    (request : DhtRequest) : DhtService × Option DhtResponse :=
  match svc.learnCaller caller with
  | none => (svc, none)
  | some svc => svc.answer now (caller.map Contact.peerId) request

end DhtService

end Operations

end DigDht.Service
