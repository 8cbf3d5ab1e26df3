/-
DigDht.Service.Routines — the public operations, one window at a time
(`src/service.rs`).

`DigDht.Service.Service` runs each operation whole. Here it is the
`async fn` of the source: a routine over the shared service in which every
`lock().await` and every RPC is a window of its own, so that between any
two of them any other operation may run. `Op.routine` is the body of each
public operation.

Windows. A `Moment` is what the environment gives one: the clock, the
transport, the random bytes, the order of the map of announced keys. A
lookup takes no lock and reads nothing shared, so it is one window, in
which the whole walk is sent and answered. What never changes (the node's
profile) is read in a window as well: these routines can be interrupted
where the source's can, and at some points more. What is sent is logged as
an `Exchange`, with what the answer told; nothing in a routine reads the
log.

A routine whose insert panics is `halted`; the lock it held is free again,
and what it had done stays.
-/
import DigDht.Lib.Routines
import DigDht.Service.Machine

namespace DigDht.Service

open Keyspace Record Routing Lookup Store Wire Content

/-- What the environment gives a window. -/
structure Moment where
  now : Nat
  swarm : Swarm
  random : Bytes32
  nonce : UInt64
  keyOrder : List String → List String
  keyOrder_perm : ∀ keys, (keyOrder keys).Perm keys

/-- An RPC that was made, and the records its answer told of for the key
asked about. -/
structure Exchange where
  peer : Contact
  request : DhtRequest
  told : List ProviderRecord

/-- What is seen of it on the wire. -/
def Exchange.sent (x : Exchange) : Sent :=
  (x.peer, x.request)

/-- An `async fn` of the service. -/
abbrev Async : Type → Type :=
  Routine DhtService Moment Exchange

namespace Async

variable {β : Type}

/-! ## §1 Windows -/

/-- What is read of the service and the environment at once. -/
def reading (f : DhtService → Moment → β) : Async β :=
  .access fun svc m => (svc, f svc m)

/-- `now_secs()`. -/
def nowSecs : Async Nat :=
  reading fun _ m => m.now

/-- One use of the routing lock. -/
def routing (f : RoutingTable → RoutingTable × β) : Async β :=
  .access fun svc _ => ({ svc with routing := (f svc.routing).1 }, (f svc.routing).2)

/-- One use of the authoritative store's lock, with the clock read under it. -/
def providers (f : ProviderStore → Nat → ProviderStore × β) : Async β :=
  .access fun svc m =>
    ({ svc with providers := (f svc.providers m.now).1 }, (f svc.providers m.now).2)

/-- One use of the discovery cache's lock. -/
def discovered (f : ProviderStore → Nat → ProviderStore × β) : Async β :=
  .access fun svc m =>
    ({ svc with discovered := (f svc.discovered m.now).1 }, (f svc.discovered m.now).2)

/-- `self.transport.rpc(..)`, of a PUT or a ping. -/
def rpc (peer : Contact) (request : DhtRequest) : Async (Option DhtResponse) :=
  .send fun _ m => ([⟨peer, request, []⟩], m.swarm.rpc [] peer request)

/-- The RPCs of a walk toward `target`. -/
def lookupExchanges (target : Key) (w : Walk) : List Exchange :=
  w.trace.map fun x =>
    ⟨x.1, .findProviders target.toHex, (x.2.map QueryOutcome.providers).getD []⟩

variable [Deps]

/-- `rt.insert(..)` under the lock. -/
def insert (contact : Contact) : Async Unit := do
  match ← routing fun rt => rt.insert contact with
  | .panicked => .halted
  | _ => pure ()

/-! ## §2 Internals -/

def seedContacts (target : Key) : Async (List Contact) :=
  reading fun svc _ => svc.seedContacts target

/-- The walk of a lookup, all of it. -/
def runLookup (target : Key) (seeds : List Contact) (stopOnProviders : Bool) :
    Async LookupResult :=
  .send fun svc m =>
    let w := (svc.runLookup m.swarm target seeds stopOnProviders).1
    (lookupExchanges target w, w.result svc.config.k)

def absorbContacts (contacts : List Contact) : Async Unit :=
  .access fun svc _ => (svc.absorbContacts contacts, ())

/-- The loop of `put_record_at`, over the peers that are not this node. -/
def sendEach : List Contact → ProviderRecord → Async Nat
  | [], _ => pure 0
  | peer :: rest, record => do
    let response ← rpc peer (.addProvider record)
    let accepted ← sendEach rest record
    pure ((if response = some .addProviderOk then 1 else 0) + accepted)

def putRecordAt (peers : List Contact) (record : ProviderRecord) : Async Nat := do
  let targets ← reading fun svc _ => svc.putTargets peers
  sendEach targets record

def cacheDiscovered (contentKey : String) (records : List ProviderRecord) : Async Unit := do
  let now ← nowSecs
  .access fun svc _ => (svc.cacheDiscovered contentKey records now, ())

def admitVerifiedRecord (record : ProviderRecord) : Async PutOutcome := do
  let now ← nowSecs
  let record ← reading fun svc _ => svc.clampedRecord record now
  let outcome ← providers fun ps _ => ps.putAt record now
  match outcome, record.provider with
  | .accepted, some pid => do
    insert (Contact.new pid record.addresses)
    pure outcome
  | _, _ => pure outcome

/-- Seeds, lookup, absorb; `none` where there is no seed. -/
def searchAndAbsorb (target : Key) : Async (Option LookupResult) := do
  let seeds ← seedContacts target
  if seeds = [] then
    pure none
  else do
    let result ← runLookup target seeds false
    absorbContacts result.closest
    pure (some result)

/-- The networked part of an announce and of a republish. -/
def publish (target : Key) (record : ProviderRecord) : Async Nat := do
  match ← searchAndAbsorb target with
  | none => pure 0
  | some result => putRecordAt result.closest record

/-! ## §3 Client operations -/

def bootstrap (peers : List BootstrapPeer) : Async Nat := do
  let inserted ← routing fun rt => insertAll rt (peers.map BootstrapPeer.toContact)
  if inserted then do
    let selfKey ← reading fun svc _ => Key.fromPeerId svc.localId
    let result ← runLookup selfKey (peers.map BootstrapPeer.toContact) false
    absorbContacts result.closest
    reading fun svc _ => svc.routing.len
  else
    .halted

def findNode (peerId : PeerId) : Async (Option (List Contact)) := do
  let result ← searchAndAbsorb (Key.fromPeerId peerId)
  pure (result.map LookupResult.closest)

def findProviders (content : ContentId) : Async (List ProviderRecord) := do
  let target := content.toKey
  let keyHex := target.toHex
  let now ← nowSecs
  let localRecords ← providers fun ps _ => (ps, ps.get keyHex now)
  let cached ← discovered fun cache _ => (cache, cache.get keyHex now)
  if cached ≠ [] then
    pure (mergeDedupByProvider localRecords cached now)
  else do
    let seeds ← seedContacts target
    if seeds = [] then
      pure localRecords
    else do
      let result ← runLookup target seeds true
      absorbContacts result.closest
      let found := result.providers.map ProviderRecord.normalized
      cacheDiscovered keyHex found
      let later ← nowSecs
      pure (mergeDedupByProvider localRecords found later)

def holdersOf (content : ContentId) : Async (List PeerId) := do
  let records ← findProviders content
  pure (records.filterMap ProviderRecord.provider)

def announceProviderWithCollateral (content : ContentId)
    (unverifiedMirrorCoinId : Option Bytes32) : Async Nat := do
  let target := content.toKey
  let record ← reading fun svc m => svc.announcedRecord content unverifiedMirrorCoinId m.now
  providers fun ps now =>
    ((ps.putAt record now).1.markAnnouncedWithCollateral target.toHex
      record.unverifiedMirrorCoinId, ())
  publish target record

/-- One lock for both removals. -/
def retractOwnProvider (content : ContentId) : Async Bool :=
  .access fun svc _ => svc.retractOwnProvider content

/-! ## §4 Maintenance -/

/-- One key of the loop of `republish`. -/
def republishKey (hex : String) : Async Unit := do
  match parseKey hex with
  | none => pure ()
  | some target => do
    let record ← reading fun svc m => svc.buildLocalRecord target m.now
    let pointer ← providers fun ps _ => (ps, ps.announcedCollateral hex)
    let record := { record with unverifiedMirrorCoinId := pointer }
    providers fun ps now => ((ps.putAt record now).1, ())
    let _ ← publish target record

def republishAll : List String → Async Unit
  | [] => pure ()
  | hex :: rest => do
    republishKey hex
    republishAll rest

def republish : Async Nat := do
  let keys ← reading fun svc m => m.keyOrder svc.providers.localAnnouncements
  republishAll keys
  pure keys.length

def refreshAll : List (Fin 256) → Async Unit
  | [] => pure ()
  | idx :: rest => do
    let target ← reading fun svc m => svc.randomKeyInBucket idx m.random
    let _ ← searchAndAbsorb target
    refreshAll rest

def refreshBuckets : Async Nat := do
  let indices ← reading fun svc _ => svc.routing.nonEmptyBucketIndices
  refreshAll indices
  pure indices.length

/-- One instant for both sweeps, each under its own lock. -/
def gc : Async Nat := do
  let now ← nowSecs
  let authoritative ← providers fun ps _ => ps.gc now
  let cached ← discovered fun cache _ => cache.gc now
  pure (authoritative + cached)

def ping (peer : Contact) : Async Bool := do
  let nonce ← reading fun _ m => m.nonce
  let response ← rpc peer (.ping nonce)
  if response = some (.pong nonce) then
    pure true
  else do
    let _ ← routing fun rt => rt.remove peer.peerId
    pure false

/-! ## §5 Serving side -/

def learnCaller : Option Contact → Async Unit
  | none => pure ()
  | some c => do
    let selfId ← reading fun svc _ => svc.selfId
    if c.peerId = selfId then
      pure ()
    else
      insert c.capped

def answer (callerPeerId : Option String) : DhtRequest → Async DhtResponse
  | .ping nonce => pure (.pong nonce)
  | .findNode target =>
    match parseKey target with
    | none => pure (.error 2 "bad target key")
    | some key => do
      let nodes ← reading fun svc _ => svc.routing.closest key
      pure (.nodes nodes)
  | .findProviders contentKey =>
    match parseKey contentKey with
    | none => pure (.error 2 "bad content key")
    | some key => do
      let now ← nowSecs
      let records ← providers fun ps _ => (ps, ps.get key.toHex now)
      let closer ← reading fun svc _ => svc.routing.closest key
      pure (.providers records closer)
  | .addProvider record =>
    if DhtService.namesAnother callerPeerId record then
      pure (.error 4 "add_provider: provider_peer_id must match the authenticated caller")
    else do
      match ← admitVerifiedRecord record with
      | .accepted => pure .addProviderOk
      | .rejectedOverCapacity => pure (.error 3 "provider store over capacity")

def handleRequestFrom (caller : Option Contact) (request : DhtRequest) : Async DhtResponse := do
  learnCaller caller
  answer (caller.map Contact.peerId) request

end Async

/-- The body of a public operation. -/
def Op.routine [Deps] : Op → Async Reply
  | .bootstrap peers => Reply.count <$> Async.bootstrap peers
  | .addPeer peerId addresses => do
    Async.insert (Contact.new peerId addresses)
    pure .unit
  | .removePeer peerIdHex => Reply.flag <$> Async.routing fun rt => rt.remove peerIdHex
  | .findNode peerId => do
    let found ← Async.findNode peerId
    pure ((found.map Reply.contacts).getD .noPeers)
  | .findProviders content => Reply.records <$> Async.findProviders content
  | .cachedProviders content =>
    Reply.records <$> Async.discovered fun cache now => (cache, cache.get content.toKey.toHex now)
  | .forgetDiscovered content =>
    Reply.count <$> Async.discovered fun cache _ => cache.removeKey content.toKey.toHex
  | .announceProviderWithCollateral content coin =>
    Reply.count <$> Async.announceProviderWithCollateral content coin
  | .withdrawProvider content =>
    Reply.flag <$> Async.providers fun ps _ => ps.unmarkAnnounced content.toKey.toHex
  | .ingestVerifiedProvider record => Reply.put <$> Async.admitVerifiedRecord record
  | .removeProviderRecord contentKey providerPeerId =>
    Reply.flag <$> Async.providers fun ps _ => ps.remove contentKey providerPeerId
  | .providerSnapshot maxKeys =>
    Reply.snapshot <$> Async.providers fun ps now => (ps, ps.snapshot now maxKeys)
  | .retractOwnProvider content => Reply.flag <$> Async.retractOwnProvider content
  | .holdersOf content => Reply.holders <$> Async.holdersOf content
  | .republish => Reply.count <$> Async.republish
  | .refreshBuckets => Reply.count <$> Async.refreshBuckets
  | .gc => Reply.count <$> Async.gc
  | .ping peer => Reply.flag <$> Async.ping peer
  | .handleRequestFrom caller request => Reply.response <$> Async.handleRequestFrom caller request
  | .knownClosest target => Reply.contacts <$> Async.reading fun svc _ => svc.routing.closest target
  | .routingLen => Reply.count <$> Async.reading fun svc _ => svc.routing.len

end DigDht.Service
