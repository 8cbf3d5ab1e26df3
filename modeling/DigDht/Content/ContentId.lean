/-
DigDht.Content.ContentId — what is advertised, and its key
(`src/content.rs`).

A content id is a store, a generation of a store, or a resource of a
generation. Its key is SHA-256 of a canonical byte string: one tag byte
for the granularity, then the 32-byte hashes in order.
-/
import DigDht.Deps

namespace DigDht.Content

open Keyspace

inductive ContentId where
  | store (storeId : Bytes32)
  | root (storeId rootId : Bytes32)
  | resource (storeId rootId retrievalKey : Bytes32)
  deriving DecidableEq

namespace ContentId

/-- `TAG_STORE`. -/
def tagStore : UInt8 := 0x01

/-- `TAG_ROOT`. -/
def tagRoot : UInt8 := 0x02

/-- `TAG_RESOURCE`. -/
def tagResource : UInt8 := 0x03

def canonicalBytes : ContentId → List UInt8
  | .store storeId => tagStore :: storeId.toList
  | .root storeId rootId => tagRoot :: (storeId.toList ++ rootId.toList)
  | .resource storeId rootId retrievalKey =>
    tagResource :: (storeId.toList ++ rootId.toList ++ retrievalKey.toList)

def toKey [Deps] (content : ContentId) : Key :=
  ⟨Deps.sha256 content.canonicalBytes⟩

end ContentId

end DigDht.Content
