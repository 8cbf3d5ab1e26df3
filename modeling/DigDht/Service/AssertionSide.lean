/-
DigDht.Service.AssertionSide — the node as a stranger can trust it.

This is a specification, not a translation. The assertion side of a node
is its fixed profile and its authoritative store: what it tells other
peers in its own name. `storeOps` lists the store operations a public
operation performs, read off the profile, the store and the `Input`
alone. There is no network in it, no routing table and no discovery
cache: a node whose store follows `storeOps` asserts nothing it was told
by the peers it asked. `DigDht.Service.ServiceTheorems` proves that the
service does.
-/
import DigDht.Service.Machine

namespace DigDht.Service

open Keyspace Record Routing Store Wire Content Runs

structure AssertionSide extends NodeProfile where
  providers : ProviderStore
  deriving DecidableEq

/-- What a reply asserts in the node's own name. -/
inductive Asserted where
  | served (providers : List ProviderRecord)
  | snapshot (s : ProviderSnapshot)
  deriving DecidableEq

def Reply.asserted : Reply → Option Asserted
  | .response (.providers providers _) => some (.served providers)
  | .snapshot s => some (.snapshot s)
  | _ => none

def DhtService.assertionSide (svc : DhtService) : AssertionSide where
  toNodeProfile := svc.toNodeProfile
  providers := svc.providers

section Spec

variable [Deps]

/-- A table of size `k = 0` panics on a contact that has a bucket. -/
def NodeProfile.insertPanics (node : NodeProfile) (c : Contact) : Bool :=
  node.config.k = 0 ∧
    (c.key.bind fun key => ((Key.fromPeerId node.localId).distance key).bucketIndex).isSome

def NodeProfile.callerPanics (node : NodeProfile) : Option Contact → Bool
  | none => false
  | some c => c.peerId ≠ node.selfId ∧ node.insertPanics c

namespace AssertionSide

/-- The puts of a republish, with the clock sites of the `i`-th key on. -/
def republishOps (a : AssertionSide) (clock : Nat → Nat) : Nat → List String → List StoreOp
  | _, [] => []
  | i, hex :: rest =>
    match parseKey hex with
    | none => republishOps a clock (i + 1) rest
    | some target =>
      .putAt (a.republishedRecord (a.providers.announcedCollateral hex) target (clock (2 * i)))
        (clock (2 * i + 1)) :: republishOps a clock (i + 1) rest

/-- The store operations one public operation performs. -/
def storeOps (a : AssertionSide) (input : Input) : List StoreOp :=
  let now := input.clock 0
  match input.op with
  | .announceProviderWithCollateral content coin =>
    let record := a.announcedRecord content coin now
    [.putAt record (input.clock 1),
      .markAnnouncedWithCollateral content.toKey.toHex record.unverifiedMirrorCoinId]
  | .withdrawProvider content => [.unmarkAnnounced content.toKey.toHex]
  | .ingestVerifiedProvider record => [.putAt (a.clampedRecord record now) now]
  | .removeProviderRecord contentKey providerPeerId => [.remove contentKey providerPeerId]
  | .retractOwnProvider content =>
    [.remove content.toKey.toHex a.selfId, .unmarkAnnounced content.toKey.toHex]
  | .republish =>
    a.republishOps input.clock 0 (input.keyOrder a.providers.localAnnouncements)
  | .gc => [.gc now]
  | .handleRequestFrom caller (.addProvider record) =>
    if a.callerPanics caller ∨ DhtService.namesAnother (caller.map Contact.peerId) record then []
    else [.putAt (a.clampedRecord record now) now]
  | _ => []

/-- The assertion side after one public operation. -/
def next (a : AssertionSide) (input : Input) : AssertionSide :=
  { a with providers := exec Store.step a.providers (a.storeOps input) }

/-- What the node asserts in its own name. -/
def asserts (a : AssertionSide) (input : Input) : Option Asserted :=
  let now := input.clock 0
  match input.op with
  | .providerSnapshot maxKeys => some (.snapshot (a.providers.snapshot now maxKeys))
  | .handleRequestFrom caller (.findProviders contentKey) =>
    if a.callerPanics caller then none
    else (parseKey contentKey).map fun key => .served (a.providers.get key.toHex now)
  | _ => none

end AssertionSide

end Spec

end DigDht.Service
