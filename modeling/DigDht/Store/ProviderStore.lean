/-
DigDht.Store.ProviderStore — the bounded provider store
(`src/provider_store.rs`).

Two nested hash maps, content key → provider → entry, plus the set of
keys this node announces. `putAt` is the admission control: a refresh
always succeeds, a new pair is turned away at the global cap, and at the
per-key cap one entry of the key is evicted (`evictionVictim`): an
expired one if there is one, otherwise the soonest to expire among those
behind the `maxProvidersPerKey / 2` longest-established.

Arithmetic. `admitted_seq` and `next_admitted_seq` are `u64` counters in
the source, with overflow checks on in release too; they are `Nat` here,
so a run of the model is a run of the code up to its 2^64-th admission.

`StoreOp` and `step` are the public operations as inputs of one state
machine; the reads (`get`, `snapshot`) are inputs too and leave the
store as it is.
-/
import Mathlib.Data.String.Basic
import Mathlib.Data.List.MinMax
import DigDht.Lib.FiniteMap
import DigDht.Lib.Runs
import DigDht.Record.Record

namespace DigDht.Store

open Record Selection

/-- The admission-control bounds. -/
structure ProviderStoreLimits where
  maxProvidersPerKey : Nat
  maxTotalRecords : Nat
  deriving DecidableEq

/-- `ProviderStoreLimits::default()`. -/
def ProviderStoreLimits.default : ProviderStoreLimits where
  maxProvidersPerKey := 20
  maxTotalRecords := 100000

inductive PutOutcome where
  | accepted
  | rejectedOverCapacity
  deriving DecidableEq

/-- `ESTABLISHED_FLOOR_DIVISOR`. -/
def establishedFloorDivisor : Nat := 2

/-- A stored record and its admission ordinal. -/
structure ProviderEntry where
  record : ProviderRecord
  admittedSeq : Nat
  deriving DecidableEq

/-- `(expires_at, admitted_seq)`, the eviction order within a tier. -/
def ProviderEntry.evictionKey (e : ProviderEntry) : Nat ×ₗ Nat :=
  toLex (e.record.expiresAt, e.admittedSeq)

/-- One content key of a snapshot. -/
structure ProviderSnapshotEntry where
  contentKey : String
  providers : Nat
  deriving DecidableEq

structure ProviderSnapshot where
  entries : List ProviderSnapshotEntry
  totalKeys : Nat
  truncated : Bool
  deriving DecidableEq

structure ProviderStore where
  byKey : FMap String (FMap String ProviderEntry)
  announced : FMap String (Option String)
  limits : ProviderStoreLimits
  nextAdmittedSeq : Nat
  deriving DecidableEq

/-- Which of a full key's providers to evict, `none` if none may be. -/
def evictionVictim (providers : FMap String ProviderEntry) (maxProvidersPerKey now : Nat) :
    Option String :=
  let byEstablishment := sortByKey ProviderEntry.admittedSeq (FMap.values providers)
  -- Step 1: a dead slot in preference to any live record, the floor included.
  match (byEstablishment.filter (·.record.isExpired now)).argmin ProviderEntry.evictionKey with
  | some dead => some dead.record.providerPeerId
  | none =>
    -- Step 2: every record is live; reserve the floor, evict in the churn zone.
    let establishedFloor := maxProvidersPerKey / establishedFloorDivisor
    ((byEstablishment.drop establishedFloor).argmin ProviderEntry.evictionKey).map
      (·.record.providerPeerId)

namespace ProviderStore

def withLimits (limits : ProviderStoreLimits) : ProviderStore where
  byKey := ∅
  announced := ∅
  limits := limits
  nextAdmittedSeq := 0

/-- Total records across all keys. -/
def len (s : ProviderStore) : Nat :=
  FMap.sumBy FMap.size s.byKey

/-- `by_key[contentKey][providerPeerId]`. -/
def entry (s : ProviderStore) (contentKey providerPeerId : String) : Option ProviderEntry :=
  (s.byKey.lookup contentKey).bind fun providers => providers.lookup providerPeerId

/-- The inner map of a key, empty when the key has none. -/
def providersOf (s : ProviderStore) (contentKey : String) : FMap String ProviderEntry :=
  (s.byKey.lookup contentKey).getD ∅

/-- Replace the inner map of a key. -/
def setProviders (s : ProviderStore) (contentKey : String)
    (providers : FMap String ProviderEntry) : ProviderStore :=
  { s with byKey := s.byKey.insert contentKey providers }

/-- The refresh branch of `put_at`: the record is replaced in place. -/
def refresh (s : ProviderStore) (existing : ProviderEntry) (record : ProviderRecord) :
    ProviderStore :=
  s.setProviders record.contentKey
    ((s.providersOf record.contentKey).insert record.providerPeerId { existing with record })

/-- The per-key cap: the key's inner map with a slot free for a newcomer,
`none` when the cap is full and nothing may be evicted. -/
def makeRoom (s : ProviderStore) (contentKey : String) (now : Nat) :
    Option (FMap String ProviderEntry) :=
  match s.byKey.lookup contentKey with
  | none => some ∅
  | some providers =>
    if s.limits.maxProvidersPerKey ≤ FMap.size providers then
      match evictionVictim providers s.limits.maxProvidersPerKey now with
      | none => none
      | some evictId => some (providers.erase evictId)
    else
      some providers

/-- The insert at the end of `put_at`. -/
def admitNew (s : ProviderStore) (providers : FMap String ProviderEntry)
    (record : ProviderRecord) : ProviderStore :=
  { s.setProviders record.contentKey
      (providers.insert record.providerPeerId ⟨record, s.nextAdmittedSeq⟩) with
    nextAdmittedSeq := s.nextAdmittedSeq + 1 }

/-- `put_at`. -/
def putAt (s : ProviderStore) (record : ProviderRecord) (now : Nat) :
    ProviderStore × PutOutcome :=
  match s.entry record.contentKey record.providerPeerId with
  | some existing => (s.refresh existing record, .accepted)
  | none =>
    if s.limits.maxTotalRecords ≤ s.len then
      (s, .rejectedOverCapacity)
    else
      match s.makeRoom record.contentKey now with
      | none => (s, .rejectedOverCapacity)
      | some providers => (s.admitNew providers record, .accepted)

/-- Remove the record of one provider; an emptied key is dropped. -/
def remove (s : ProviderStore) (contentKey providerPeerId : String) : ProviderStore × Bool :=
  match s.byKey.lookup contentKey with
  | none => (s, false)
  | some providers =>
    let left := providers.erase providerPeerId
    let byKey := if FMap.size left = 0 then s.byKey.erase contentKey
      else s.byKey.insert contentKey left
    ({ s with byKey }, (providers.lookup providerPeerId).isSome)

/-- Drop every record of a key. -/
def removeKey (s : ProviderStore) (contentKey : String) : ProviderStore × Nat :=
  ({ s with byKey := s.byKey.erase contentKey }, FMap.size (s.providersOf contentKey))

/-- The live records of a key. -/
def get (s : ProviderStore) (contentKey : String) (now : Nat) : List ProviderRecord :=
  match s.byKey.lookup contentKey with
  | none => []
  | some providers =>
    ((FMap.values providers).map (·.record)).filter fun r => !r.isExpired now

/-- The entries of one inner map that are live at `now`. -/
def live (now : Nat) (providers : FMap String ProviderEntry) : FMap String ProviderEntry :=
  FMap.retain (fun _ e => !e.record.isExpired now) providers

/-- The closure `gc` sweeps the outer map with. -/
def sweep (now : Nat) (providers : FMap String ProviderEntry) :
    Option (FMap String ProviderEntry) :=
  if FMap.size (live now providers) = 0 then none else some (live now providers)

/-- Drop every expired record and every key left empty. -/
def gc (s : ProviderStore) (now : Nat) : ProviderStore × Nat :=
  ({ s with byKey := FMap.filterMap (fun _ => sweep now) s.byKey },
    FMap.sumBy (fun providers => FMap.size providers - FMap.size (live now providers)) s.byKey)

def markAnnouncedWithCollateral (s : ProviderStore) (contentKey : String)
    (unverifiedMirrorCoinId : Option String) : ProviderStore :=
  { s with announced := s.announced.insert contentKey unverifiedMirrorCoinId }

def markAnnounced (s : ProviderStore) (contentKey : String) : ProviderStore :=
  s.markAnnouncedWithCollateral contentKey none

/-- The pointer remembered for a key. -/
def announcedCollateral (s : ProviderStore) (contentKey : String) : Option String :=
  (s.announced.lookup contentKey).join

def unmarkAnnounced (s : ProviderStore) (contentKey : String) : ProviderStore × Bool :=
  ({ s with announced := s.announced.erase contentKey },
    (s.announced.lookup contentKey).isSome)

/-- The republish work list. -/
def localAnnouncements (s : ProviderStore) : List String :=
  s.announced.keys

/-- The aggregated view: live counts per key, sorted and capped. -/
def snapshot (s : ProviderStore) (now maxKeys : Nat) : ProviderSnapshot :=
  let counts := s.byKey.entries.filterMap fun e =>
    let live := (FMap.values e.2).countP fun e => !e.record.isExpired now
    if 0 < live then some ⟨e.1, live⟩ else none
  let entries := sortByKey ProviderSnapshotEntry.contentKey counts
  { entries := entries.take maxKeys
    totalKeys := entries.length
    truncated := maxKeys < entries.length }

end ProviderStore

/-! ## The store as a state machine -/

/-- One operation on the store, with the caller's clock where it takes one. -/
inductive StoreOp where
  | putAt (record : ProviderRecord) (now : Nat)
  | get (contentKey : String) (now : Nat)
  | snapshot (now maxKeys : Nat)
  | gc (now : Nat)
  | remove (contentKey providerPeerId : String)
  | removeKey (contentKey : String)
  | markAnnounced (contentKey : String)
  | markAnnouncedWithCollateral (contentKey : String) (unverifiedMirrorCoinId : Option String)
  | unmarkAnnounced (contentKey : String)

/-- The store after an operation. -/
def step (s : ProviderStore) : StoreOp → ProviderStore
  | .putAt record now => (s.putAt record now).1
  | .get _ _ => s
  | .snapshot _ _ => s
  | .gc now => (s.gc now).1
  | .remove contentKey providerPeerId => (s.remove contentKey providerPeerId).1
  | .removeKey contentKey => (s.removeKey contentKey).1
  | .markAnnounced contentKey => s.markAnnounced contentKey
  | .markAnnouncedWithCollateral contentKey coin => s.markAnnouncedWithCollateral contentKey coin
  | .unmarkAnnounced contentKey => (s.unmarkAnnounced contentKey).1

end DigDht.Store
