/-
DigDht.Record.Record — candidate addresses and provider records
(`src/record.rs`).

The fields are public in the source and public here: nothing about a
record holds by construction, which is why `sortAndCapAddresses` and
`normalizeMirrorCoinId` are applied again at every boundary. A port is a
`UInt16`; an expiry is a `Nat` of absolute Unix seconds.
-/
import Mathlib.Data.Prod.Lex
import DigDht.Deps
import DigDht.Keyspace.CodecTheorems
import DigDht.Lib.Selection

namespace DigDht.Record

open Keyspace Selection

/-- How a candidate address was learned. -/
inductive AddressKind where
  | direct
  | mapped
  | reflexive
  | relay
  deriving DecidableEq

/-- Most-direct-first. -/
def AddressKind.rank : AddressKind → Nat
  | .direct => 0
  | .mapped => 1
  | .reflexive => 2
  | .relay => 3

/-- One candidate address: `{ host, port, kind }`. -/
structure CandidateAddr where
  host : String
  port : UInt16
  kind : AddressKind
  deriving DecidableEq

def CandidateAddr.direct (host : String) (port : UInt16) : CandidateAddr :=
  { host, port, kind := .direct }

/-- `MAX_ADDRESSES_PER_RECORD`. -/
def maxAddressesPerRecord : Nat := 8

/-- `MAX_HOST_LEN`. -/
def maxHostLen : Nat := 253

section Addresses

variable [Deps]

/-- IPv6 literal 0, IPv4 literal 1, anything else 2. -/
def CandidateAddr.familyRank (a : CandidateAddr) : Nat :=
  match (Deps.parseIp a.host).map Deps.familyOf with
  | some .v6 => 0
  | some .v4 => 1
  | none => 2

def CandidateAddr.familyThenKindRank (a : CandidateAddr) : Nat ×ₗ Nat :=
  toLex (a.familyRank, a.kind.rank)

def sortAddressesIpv6First (addresses : List CandidateAddr) : List CandidateAddr :=
  sortByKey CandidateAddr.familyThenKindRank addresses

/-- Drop over-long hosts, sort, truncate. -/
def sortAndCapAddresses (addresses : List CandidateAddr) : List CandidateAddr :=
  let kept := addresses.filter fun a => (utf8 a.host).length ≤ maxHostLen
  (sortAddressesIpv6First kept).take maxAddressesPerRecord

theorem sortAndCapAddresses_length (addresses : List CandidateAddr) :
    (sortAndCapAddresses addresses).length ≤ maxAddressesPerRecord :=
  List.length_take_le _ _

theorem mem_of_mem_sortAndCapAddresses {addresses : List CandidateAddr} {a : CandidateAddr}
    (h : a ∈ sortAndCapAddresses addresses) :
    a ∈ addresses ∧ (utf8 a.host).length ≤ maxHostLen := by
  have hsorted : a ∈ sortAddressesIpv6First _ := List.mem_of_mem_take h
  simpa [sortAddressesIpv6First] using hsorted

/-- At most eight addresses, no over-long host, in the order of the
ranks. -/
structure WellShaped (addresses : List CandidateAddr) : Prop where
  count : addresses.length ≤ maxAddressesPerRecord
  hosts : ∀ a ∈ addresses, (utf8 a.host).length ≤ maxHostLen
  sorted : addresses.Pairwise fun a b => a.familyThenKindRank ≤ b.familyThenKindRank

theorem wellShaped_sortAndCap (addresses : List CandidateAddr) :
    WellShaped (sortAndCapAddresses addresses) where
  count := sortAndCapAddresses_length addresses
  hosts _ ha := (mem_of_mem_sortAndCapAddresses ha).2
  sorted := (sortByKey_pairwise _ _).sublist (List.take_sublist _ _)

/-- The well-shaped lists are the ones left as they are. -/
theorem wellShaped_iff {addresses : List CandidateAddr} :
    WellShaped addresses ↔ sortAndCapAddresses addresses = addresses := by
  constructor
  · intro h
    have hkept : (addresses.filter fun a => (utf8 a.host).length ≤ maxHostLen) = addresses :=
      List.filter_eq_self.mpr fun a ha => by simpa using h.hosts a ha
    rw [sortAndCapAddresses, hkept, sortAddressesIpv6First, sortByKey_of_sorted _ h.sorted]
    exact List.take_of_length_le h.count
  · intro h
    exact h ▸ wellShaped_sortAndCap addresses

@[simp] theorem sortAndCapAddresses_idem (addresses : List CandidateAddr) :
    sortAndCapAddresses (sortAndCapAddresses addresses) = sortAndCapAddresses addresses :=
  wellShaped_iff.mp (wellShaped_sortAndCap addresses)

end Addresses

/-- The stored value: `provider_peer_id` holds the content whose key is
`content_key`, reachable at `addresses`, until `expires_at`. -/
structure ProviderRecord where
  contentKey : String
  providerPeerId : String
  addresses : List CandidateAddr
  expiresAt : Nat
  unverifiedMirrorCoinId : Option String
  deriving DecidableEq

namespace ProviderRecord

/-- Stale at and after its expiry. -/
def isExpired (r : ProviderRecord) (now : Nat) : Bool :=
  r.expiresAt ≤ now

def withUnverifiedMirrorCoinId (r : ProviderRecord) (coinId : Bytes32) : ProviderRecord :=
  { r with unverifiedMirrorCoinId := some (toHex64 coinId) }

variable [Deps]

def new (contentKey : Key) (provider : PeerId) (addresses : List CandidateAddr)
    (expiresAt : Nat) : ProviderRecord where
  contentKey := contentKey.toHex
  providerPeerId := Deps.toHex provider
  addresses := sortAndCapAddresses addresses
  expiresAt := expiresAt
  unverifiedMirrorCoinId := none

/-- `provider_peer_id()`: the holder, decoded. -/
def provider (r : ProviderRecord) : Option PeerId :=
  Deps.fromHex r.providerPeerId

/-- Both peer-controlled shape fields brought to their canonical form:
the pair of statements the source repeats at every ingress. -/
def normalized (r : ProviderRecord) : ProviderRecord :=
  { r with
    addresses := sortAndCapAddresses r.addresses
    unverifiedMirrorCoinId := normalizeMirrorCoinId r.unverifiedMirrorCoinId }

@[simp] theorem normalized_contentKey (r : ProviderRecord) :
    r.normalized.contentKey = r.contentKey := rfl

@[simp] theorem normalized_providerPeerId (r : ProviderRecord) :
    r.normalized.providerPeerId = r.providerPeerId := rfl

@[simp] theorem normalized_isExpired (r : ProviderRecord) (now : Nat) :
    r.normalized.isExpired now = r.isExpired now := rfl

/-- Addresses and pointer are in canonical form. -/
structure Shaped (r : ProviderRecord) : Prop where
  addresses : WellShaped r.addresses
  pointer : ∀ coinId ∈ r.unverifiedMirrorCoinId, LowerHex64 coinId

theorem shaped_normalized (r : ProviderRecord) : r.normalized.Shaped where
  addresses := wellShaped_sortAndCap r.addresses
  pointer _ h := lowerHex64_of_normalize h

theorem Shaped.expiring {r : ProviderRecord} (h : r.Shaped) (expiresAt : Nat) :
    { r with expiresAt }.Shaped :=
  ⟨h.addresses, h.pointer⟩

end ProviderRecord

/-- A record live at `now` and one expired at `now` are the two cases. -/
theorem ProviderRecord.isExpired_iff {r : ProviderRecord} {now : Nat} :
    r.isExpired now = true ↔ r.expiresAt ≤ now := by
  simp [ProviderRecord.isExpired]

end DigDht.Record
