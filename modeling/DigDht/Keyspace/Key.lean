/-
DigDht.Keyspace.Key — the 256-bit Kademlia keyspace (`src/key.rs`).

`Key`, `Distance` and `PeerId` are 32 big-endian bytes each, kept apart
as types the way the source keeps them apart. A `Distance` is ordered by
its bytes, most significant first, which is what the derived comparison
of `[u8; 32]` does.

`bucketIndex` is the source's loop over the bytes: at the first non-zero
byte `i` it returns `255 - (i * 8 + leading zeros)`. The index is a
`Fin 256`, so the routing table can use it to address a bucket.
-/
import Mathlib.Data.Vector.MapLemmas
import Mathlib.Data.Vector.Zip
import Mathlib.Data.List.Lex
import Mathlib.Order.Lattice

namespace DigDht.Keyspace

/-- `[u8; 32]`. -/
abbrev Bytes32 := List.Vector UInt8 32

/-- `dig_nat::PeerId`: SHA-256 of a TLS public key, 32 bytes. Its hex
codec is not in this crate; see `DigDht.Deps`. -/
structure PeerId where
  bytes : Bytes32
  deriving DecidableEq

/-- A point of the keyspace. -/
structure Key where
  bytes : Bytes32
  deriving DecidableEq

/-- The XOR distance between two keys. -/
structure Distance where
  bytes : Bytes32
  deriving DecidableEq

/-- A node's key is its peer id verbatim. -/
def Key.fromPeerId (peerId : PeerId) : Key :=
  ⟨peerId.bytes⟩

/-- Byte-wise XOR. -/
def Key.distance (a b : Key) : Distance :=
  ⟨List.Vector.zipWith (· ^^^ ·) a.bytes b.bytes⟩

namespace Distance

/-- `u8::leading_zeros`. -/
def leadingZeros (b : UInt8) : Nat :=
  if b = 0 then 8 else 7 - b.toNat.log2

/-- The loop of `bucket_index` from byte `i` on. -/
def bucketIndexFrom : Nat → List UInt8 → Option (Fin 256)
  | _, [] => none
  | i, byte :: rest =>
    if byte ≠ 0 then
      some ⟨255 - (i * 8 + leadingZeros byte), by omega⟩
    else
      bucketIndexFrom (i + 1) rest

/-- `255 - leading_zero_bits`, `none` for the zero distance. -/
def bucketIndex (d : Distance) : Option (Fin 256) :=
  bucketIndexFrom 0 d.bytes.toList

/-- The bytes as numbers, most significant first. -/
def digits (d : Distance) : List Nat :=
  d.bytes.toList.map UInt8.toNat

theorem digits_injective : Function.Injective digits := by
  intro a b h
  have hlist : a.bytes.toList = b.bytes.toList :=
    List.map_injective_iff.mpr (fun _ _ => UInt8.toNat_inj.mp) h
  cases a; cases b
  exact congrArg Distance.mk (Subtype.ext hlist)

/-- Big-endian comparison, byte 0 most significant. -/
instance : LinearOrder Distance :=
  LinearOrder.lift' digits digits_injective

end Distance

end DigDht.Keyspace
