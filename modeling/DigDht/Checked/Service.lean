/-
DigDht.Checked.Service — the operations of a node with the panics of
their arithmetic (`src/service.rs`).

`stepChecked` runs an operation over the components of
`DigDht.Checked.Components`; `none` is a panic anywhere inside it, and a
run ends with it (`runChecked`). The operations left to `step` only look
up, filter and truncate.
-/
import DigDht.Checked.Components
import DigDht.Service.Machine

namespace DigDht.Service

open Keyspace Record Routing Lookup Store Wire Content Checked

namespace DhtService

/-- `random_key_in_bucket`, on arrays of 32 bytes. -/
def randomKeyInBucketChecked (svc : DhtService) (idx : Nat) (random : Bytes32) : Option Key := do
  let bit ← sub 255 idx
  let byte := bit / 8
  let bitInByte ← sub 7 (bit % 8)
  -- `1 << bit_in_byte` on a `u8`, written to `distance[byte]`.
  if 8 ≤ bitInByte ∨ 32 ≤ byte then none
  let skipped ← add byte 1
  let distance : Bytes32 := List.Vector.ofFn fun i =>
    if i.val = byte then 1 <<< UInt8.ofNat bitInByte
    else if skipped ≤ i.val then random.get i
    else 0
  let target ← List.Vector.mOfFn fun i : Fin 32 => do
    let a ← svc.localId.bytes.toList[i.val]?
    let b ← distance.toList[i.val]?
    some (a ^^^ b)
  some ⟨target⟩

variable [Deps]

/-! ## Internals -/

def insertAllChecked (rt : RoutingTable) (contacts : List Contact) : Option RoutingTable :=
  contacts.foldlM (fun rt c => (rt.insertChecked c).map Prod.fst) rt

def runLookupChecked (svc : DhtService) (swarm : Swarm) (target : Key) (seeds : List Contact)
    (stopOnProviders : Bool) : Option (Walk × Exit) :=
  (svc.lookupParams target stopOnProviders).walkChecked (swarm.peers target.toHex) seeds

def absorbContactsChecked (svc : DhtService) (contacts : List Contact) : Option DhtService := do
  let routing ← contacts.foldlM (fun rt c => (rt.insertChecked c.capped).map Prod.fst) svc.routing
  some { svc with routing }

/-- The loop of `put_record_at`: `accepted += 1`. -/
def putRecordAtChecked (svc : DhtService) (swarm : Swarm) (asked peers : List Contact)
    (record : ProviderRecord) : Option (Nat × List Sent) := do
  let targets := svc.putTargets peers
  let accepted ← count
    (fun p => swarm.rpc asked p (.addProvider record) = some .addProviderOk) targets
  some (accepted, targets.map fun p => (p, .addProvider record))

def cacheDiscoveredChecked (svc : DhtService) (contentKey : String)
    (discovered : List ProviderRecord) (now : Nat) : Option DhtService := do
  let cache ← (discovered.filterMap (svc.cacheEntry contentKey now)).foldlM
    (fun cache entry => (cache.putAtChecked entry now).map Prod.fst) svc.discovered
  some { svc with discovered := cache }

def admitVerifiedRecordChecked (svc : DhtService) (record : ProviderRecord) (now : Nat) :
    Option (DhtService × PutOutcome) := do
  let record := svc.clampedRecord record now
  let (providers, outcome) ← svc.providers.putAtChecked record now
  let svc := { svc with providers }
  match outcome, record.provider with
  | .accepted, some pid => do
    let (routing, _) ← svc.routing.insertChecked (Contact.new pid record.addresses)
    some ({ svc with routing }, outcome)
  | _, _ => some (svc, outcome)

/-! ## Client operations -/

def bootstrapChecked (svc : DhtService) (swarm : Swarm) (peers : List BootstrapPeer) :
    Option (DhtService × Nat × List Sent) := do
  let routing ← insertAllChecked svc.routing (peers.map BootstrapPeer.toContact)
  let svc := { svc with routing }
  let target := Key.fromPeerId svc.localId
  let (w, _) ← svc.runLookupChecked swarm target (peers.map BootstrapPeer.toContact) false
  let svc ← svc.absorbContactsChecked (w.result svc.config.k).closest
  let known ← svc.routing.lenChecked
  some (svc, known, lookupRequests target w)

def searchAndAbsorbChecked (svc : DhtService) (swarm : Swarm) (target : Key) :
    Option (DhtService × Option Walk) :=
  let seeds := svc.seedContacts target
  if seeds = [] then some (svc, none)
  else do
    let (w, _) ← svc.runLookupChecked swarm target seeds false
    let svc ← svc.absorbContactsChecked (w.result svc.config.k).closest
    some (svc, some w)

def findNodeChecked (svc : DhtService) (swarm : Swarm) (peerId : PeerId) :
    Option (DhtService × Option (List Contact) × List Sent) := do
  let target := Key.fromPeerId peerId
  match ← svc.searchAndAbsorbChecked swarm target with
  | (svc, none) => some (svc, none, [])
  | (svc, some w) => some (svc, some (w.result svc.config.k).closest, lookupRequests target w)

def findProvidersChecked (svc : DhtService) (clock : Nat → Nat) (swarm : Swarm)
    (content : ContentId) : Option (DhtService × List ProviderRecord × List Sent) :=
  let target := content.toKey
  let keyHex := target.toHex
  let localRecords := svc.providers.get keyHex (clock 0)
  let cached := svc.discovered.get keyHex (clock 0)
  if cached ≠ [] then some (svc, mergeDedupByProvider localRecords cached (clock 0), [])
  else
    let seeds := svc.seedContacts target
    if seeds = [] then some (svc, localRecords, [])
    else do
      let (w, _) ← svc.runLookupChecked swarm target seeds true
      let svc ← svc.absorbContactsChecked (w.result svc.config.k).closest
      let discovered := (FMap.values w.providers).map ProviderRecord.normalized
      let svc ← svc.cacheDiscoveredChecked keyHex discovered (clock 1)
      some (svc, mergeDedupByProvider localRecords discovered (clock 2), lookupRequests target w)

/-- The locked part of an announce. -/
def storeAnnouncedChecked (svc : DhtService) (keyHex : String) (record : ProviderRecord)
    (now : Nat) : Option DhtService := do
  let (providers, _) ← svc.providers.putAtChecked record now
  some { svc with
    providers := providers.markAnnouncedWithCollateral keyHex record.unverifiedMirrorCoinId }

def publishChecked (svc : DhtService) (swarm : Swarm) (target : Key) (record : ProviderRecord) :
    Option (DhtService × Nat × List Sent) := do
  match ← svc.searchAndAbsorbChecked swarm target with
  | (svc, none) => some (svc, 0, [])
  | (svc, some w) => do
    let (accepted, sent) ←
      svc.putRecordAtChecked swarm (w.trace.map Prod.fst) (w.result svc.config.k).closest record
    some (svc, accepted, lookupRequests target w ++ sent)

def announceProviderWithCollateralChecked (svc : DhtService) (clock : Nat → Nat) (swarm : Swarm)
    (content : ContentId) (unverifiedMirrorCoinId : Option Bytes32) :
    Option (DhtService × Nat × List Sent) := do
  let target := content.toKey
  let record := svc.announcedRecord content unverifiedMirrorCoinId (clock 0)
  let svc ← svc.storeAnnouncedChecked target.toHex record (clock 1)
  svc.publishChecked swarm target record

/-! ## Maintenance -/

/-- The loop of `republish`. -/
def republishFromChecked (svc : DhtService) (clock : Nat → Nat) (swarms : Nat → Swarm) :
    Nat → List String → Option (DhtService × List ProviderRecord × List Sent)
  | _, [] => some (svc, [], [])
  | i, hex :: rest =>
    match parseKey hex with
    | none => republishFromChecked svc clock swarms (i + 1) rest
    | some target => do
      let record :=
        svc.republishedRecord (svc.providers.announcedCollateral hex) target (clock (2 * i))
      let (providers, _) ← svc.providers.putAtChecked record (clock (2 * i + 1))
      let stored := { svc with providers }
      let (svc, _, sent) ← stored.publishChecked (swarms i) target record
      let (svc, records, sent') ← republishFromChecked svc clock swarms (i + 1) rest
      some (svc, record :: records, sent ++ sent')

/-- The loop of `refresh_buckets`. -/
def refreshFromChecked (svc : DhtService) (random : Nat → Bytes32) (swarms : Nat → Swarm) :
    Nat → List (Fin 256) → Option (DhtService × List Sent)
  | _, [] => some (svc, [])
  | i, idx :: rest => do
    let target ← svc.randomKeyInBucketChecked idx.val (random i)
    let (svc, w) ← svc.searchAndAbsorbChecked (swarms i) target
    let (svc, sent) ← refreshFromChecked svc random swarms (i + 1) rest
    some (svc, (w.map (lookupRequests target)).getD [] ++ sent)

def gcChecked (svc : DhtService) (now : Nat) : Option (DhtService × Nat) := do
  let (providers, authoritative) ← svc.providers.gcChecked now
  let (discovered, cached) ← svc.discovered.gcChecked now
  let removed ← add authoritative cached
  some ({ svc with providers, discovered }, removed)

def pingChecked (svc : DhtService) (swarm : Swarm) (peer : Contact) (nonce : UInt64) :
    Option (DhtService × Bool) :=
  if swarm.rpc [] peer (.ping nonce) = some (.pong nonce) then some (svc, true)
  else do
    let (routing, _) ← svc.routing.removeChecked peer.peerId
    some ({ svc with routing }, false)

/-! ## Serving side -/

def learnCallerChecked (svc : DhtService) : Option Contact → Option DhtService
  | none => some svc
  | some c =>
    if c.peerId = svc.selfId then some svc
    else do
      let (routing, _) ← svc.routing.insertChecked c.capped
      some { svc with routing }

def answerChecked (svc : DhtService) (now : Nat) (callerPeerId : Option String) :
    DhtRequest → Option (DhtService × DhtResponse)
  | .ping nonce => some (svc, .pong nonce)
  | .findNode target =>
    match parseKey target with
    | none => some (svc, .error 2 "bad target key")
    | some key => some (svc, .nodes (svc.routing.closest key))
  | .findProviders contentKey =>
    match parseKey contentKey with
    | none => some (svc, .error 2 "bad content key")
    | some key =>
      some (svc, .providers (svc.providers.get key.toHex now) (svc.routing.closest key))
  | .addProvider record =>
    if namesAnother callerPeerId record then
      some (svc, .error 4 "add_provider: provider_peer_id must match the authenticated caller")
    else do
      match ← svc.admitVerifiedRecordChecked record now with
      | (svc, .accepted) => some (svc, .addProviderOk)
      | (svc, .rejectedOverCapacity) => some (svc, .error 3 "provider store over capacity")

def handleRequestFromChecked (svc : DhtService) (now : Nat) (caller : Option Contact)
    (request : DhtRequest) : Option (DhtService × DhtResponse) := do
  let svc ← svc.learnCallerChecked caller
  svc.answerChecked now (caller.map Contact.peerId) request

end DhtService

variable [Deps]

/-- `step`, or the panic inside it. -/
def stepChecked (svc : DhtService) (input : Input) (world : World) :
    Option (DhtService × Output) :=
  let now := input.clock 0
  let swarm := world.swarms 0
  match input.op with
  | .bootstrap peers => do
    let (svc, known, sent) ← svc.bootstrapChecked swarm peers
    some (svc, ⟨.count known, sent, []⟩)
  | .addPeer peerId addresses => do
    let (routing, _) ← svc.routing.insertChecked (Contact.new peerId addresses)
    some ({ svc with routing }, .quiet .unit)
  | .removePeer peerIdHex => do
    let (routing, removed) ← svc.routing.removeChecked peerIdHex
    some ({ svc with routing }, .quiet (.flag removed))
  | .findNode peerId => do
    let (svc, found, sent) ← svc.findNodeChecked swarm peerId
    some (svc, ⟨(found.map Reply.contacts).getD .noPeers, sent, []⟩)
  | .findProviders content => do
    let (svc, records, sent) ← svc.findProvidersChecked input.clock swarm content
    some (svc, ⟨.records records, sent, []⟩)
  | .announceProviderWithCollateral content coin => do
    let record := svc.announcedRecord content coin now
    let (svc, accepted, sent) ←
      svc.announceProviderWithCollateralChecked input.clock swarm content coin
    some (svc, ⟨.count accepted, sent, [record]⟩)
  | .ingestVerifiedProvider record => do
    let (svc, outcome) ← svc.admitVerifiedRecordChecked record now
    some (svc, .quiet (.put outcome))
  | .holdersOf content => do
    let (svc, records, sent) ← svc.findProvidersChecked input.clock swarm content
    some (svc, ⟨.holders (records.filterMap ProviderRecord.provider), sent, []⟩)
  | .republish => do
    let keys := input.keyOrder svc.providers.localAnnouncements
    let (svc, records, sent) ← svc.republishFromChecked input.clock world.swarms 0 keys
    some (svc, ⟨.count keys.length, sent, records⟩)
  | .refreshBuckets => do
    let indices := svc.routing.nonEmptyBucketIndices
    let (svc, sent) ← svc.refreshFromChecked world.random world.swarms 0 indices
    some (svc, ⟨.count indices.length, sent, []⟩)
  | .gc => do
    let (svc, removed) ← svc.gcChecked now
    some (svc, .quiet (.count removed))
  | .ping peer => do
    let (svc, alive) ← svc.pingChecked swarm peer world.nonce
    some (svc, ⟨.flag alive, [(peer, .ping world.nonce)], []⟩)
  | .handleRequestFrom caller request => do
    let (svc, response) ← svc.handleRequestFromChecked now caller request
    some (svc, .quiet (.response response))
  | .providerSnapshot maxKeys => do
    let snapshot ← svc.providers.snapshotChecked now maxKeys
    some (svc, .quiet (.snapshot snapshot))
  | .routingLen => do
    let known ← svc.routing.lenChecked
    some (svc, .quiet (.count known))
  | _ => some (step svc input world)

/-- A run, up to the first panic. -/
def runChecked (svc : DhtService) (run : List (Input × World)) : Option DhtService :=
  run.foldlM (fun svc x => (stepChecked svc x.1 x.2).map Prod.fst) svc

end DigDht.Service
