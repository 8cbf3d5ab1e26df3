/-
DigDht.Deps — the code the crate calls and does not contain.

Four third-party or standard-library functions decide values in this
crate: the text codec of `dig_nat::PeerId`, SHA-256, `IpAddr` parsing
and `dig_ip::Family::of`. They are fields of one class, so every
definition that reaches them says so in its type, and what a theorem
needs of them is a named law (`LawfulPeerIdHex`), not a definition made
up here. The text of an `IpAddr`, which only the dial order reads, is a
class of its own (`IpText`).
-/
import DigDht.Keyspace.HexTheorems

namespace DigDht

open Keyspace

/-- `std::net::IpAddr`. -/
inductive IpAddr where
  | v4 (octets : BitVec 32)
  | v6 (octets : BitVec 128)
  deriving DecidableEq

/-- `Ipv6Addr::to_ipv4_mapped`: the `a.b.c.d` of `::ffff:a.b.c.d`. -/
def toIpv4Mapped (v6 : BitVec 128) : Option (BitVec 32) :=
  if v6 >>> 32 = 0xffff then some (v6.setWidth 32) else none

/-- An IPv4-mapped IPv6 address reduced to its IPv4 form. -/
def IpAddr.canonical : IpAddr → IpAddr
  | .v4 octets => .v4 octets
  | .v6 octets => ((toIpv4Mapped octets).map IpAddr.v4).getD (.v6 octets)

/-- `dig_ip::Family`. -/
inductive Family where
  | v4
  | v6
  deriving DecidableEq

/-- The external functions. -/
class Deps where
  /-- `PeerId::from_hex`. -/
  fromHex : String → Option PeerId
  /-- `PeerId::to_hex`. -/
  toHex : PeerId → String
  /-- `Sha256::digest`. -/
  sha256 : List UInt8 → Bytes32
  /-- `str::parse::<IpAddr>`. -/
  parseIp : String → Option IpAddr
  /-- `Family::of`, on the address half of the socket address. -/
  familyOf : IpAddr → Family

/-- The documented law of the `PeerId` codec: decoding inverts encoding. -/
class LawfulPeerIdHex [Deps] : Prop where
  fromHex_toHex : ∀ p : PeerId, Deps.fromHex (Deps.toHex p) = some p

/-- The documented text of a `PeerId`: its bytes as 64 lowercase hex digits. -/
class PeerIdTextIsHex [Deps] : Prop where
  toHex_eq : ∀ p : PeerId, Deps.toHex p = toHex64 p.bytes

/-- `IpAddr::to_string`. -/
class IpText where
  ipText : IpAddr → String

/-- The documented laws of addresses: the text of a parsed address reads
back, and `Family::of` is V4 on IPv4 and IPv4-mapped addresses only. -/
class LawfulIpText [Deps] [IpText] : Prop where
  parseIp_ipText : ∀ (host : String) (ip : IpAddr), Deps.parseIp host = some ip →
    Deps.parseIp (IpText.ipText ip.canonical) = some ip.canonical
  familyOf_v4_iff : ∀ ip : IpAddr, Deps.familyOf ip = .v4 ↔ ∃ octets, ip.canonical = .v4 octets

/-- The family is one of the canonical form. -/
theorem familyOf_eq_of_canonical [Deps] [IpText] [LawfulIpText] {ip ip' : IpAddr}
    (h : ip.canonical = ip'.canonical) : Deps.familyOf ip = Deps.familyOf ip' := by
  have hv4 : Deps.familyOf ip = .v4 ↔ Deps.familyOf ip' = .v4 := by
    rw [LawfulIpText.familyOf_v4_iff, LawfulIpText.familyOf_v4_iff, h]
  cases hip : Deps.familyOf ip <;> cases hip' : Deps.familyOf ip' <;> simp [hip, hip'] at hv4 ⊢

theorem toHex_injective [Deps] [LawfulPeerIdHex] :
    Function.Injective (Deps.toHex : PeerId → String) := by
  intro p q h
  have hp := LawfulPeerIdHex.fromHex_toHex p
  rw [h, LawfulPeerIdHex.fromHex_toHex] at hp
  exact (Option.some.inj hp).symm

/-- The text is the spelling `spell` has for its identity, if it spells
one. -/
def SpelledBy [Deps] (spell : PeerId → String) (x : String) : Prop :=
  ∀ p ∈ Deps.fromHex x, x = spell p

instance [Deps] (spell : PeerId → String) (x : String) : Decidable (SpelledBy spell x) :=
  inferInstanceAs (Decidable (∀ p ∈ Deps.fromHex x, x = spell p))

/-- Texts of one spelling that spell one identity are one text. -/
theorem SpelledBy.eq [Deps] {spell : PeerId → String} {x y : String} (hx : SpelledBy spell x)
    (hy : SpelledBy spell y) {p : PeerId} (hxp : Deps.fromHex x = some p)
    (hyp : Deps.fromHex y = some p) : x = y :=
  (hx p hxp).trans (hy p hyp).symm

/-- A text that is the encoding of its identity, if it spells one. -/
abbrev CanonicalId [Deps] (x : String) : Prop :=
  SpelledBy Deps.toHex x

/-- An instance to evaluate with: this crate's own 64-hex codec as the
`PeerId` codec, a given digest, and hosts that are all names. -/
@[reducible] def hexDeps (sha256 : List UInt8 → Bytes32) : Deps where
  fromHex hex := (hex64ToBytes hex).map PeerId.mk
  toHex p := toHex64 p.bytes
  sha256 := sha256
  parseIp _ := none
  familyOf
    | .v4 _ => .v4
    | .v6 _ => .v6

instance lawfulPeerIdHex_hexDeps (sha256 : List UInt8 → Bytes32) :
    @LawfulPeerIdHex (hexDeps sha256) :=
  @LawfulPeerIdHex.mk (hexDeps sha256) fun p => by
    show (hex64ToBytes (toHex64 p.bytes)).map PeerId.mk = some p
    rw [hex64ToBytes_toHex64]
    rfl

instance peerIdTextIsHex_hexDeps (sha256 : List UInt8 → Bytes32) :
    @PeerIdTextIsHex (hexDeps sha256) :=
  @PeerIdTextIsHex.mk (hexDeps sha256) fun _ => rfl

/-! ## Machine words -/

/-- `u64::MAX`. -/
def u64Max : Nat := 2 ^ 64 - 1

/-- `u64::saturating_add`. -/
def saturatingAdd (a b : Nat) : Nat :=
  min (a + b) u64Max

end DigDht
