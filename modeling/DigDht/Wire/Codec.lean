/-
DigDht.Wire.Codec — what both message types are written as and how they
are read (`src/wire.rs`, the derived deserializers and their two hooks in
`src/record.rs` and `src/routing.rs`).

Decoding is not the mirror image of encoding. `serde_json` reads the body
as it stands (`RawRequest`, `RawResponse`), and the `deserialize_with`
hooks then cap every address list and normalise every pointer (`decoded`).
The parser is a parameter, and so is `serde_json::to_vec` wherever a
result does not depend on what it writes; `body` is the compact JSON. What
the parser hands to the hooks for a body this crate itself writes is
`raw`: the message, with a pointer as the JSON string it was written as.

The reader keeps its place: `decodeFramedFrom` yields the message and the
bytes of the stream it did not read.
-/
import DigDht.Wire.Frame

namespace DigDht.Wire

open Keyspace Record Routing CompactJson

/-! ## Requests -/

/-- A request in compact JSON. -/
def DhtRequest.body : DhtRequest → Text
  | .findNode target => obj [member "type" (str "find_node"), member "target" (str target)]
  | .findProviders contentKey =>
    obj [member "type" (str "find_providers"), member "content_key" (str contentKey)]
  | .addProvider record =>
    obj [member "type" (str "add_provider"), member "record" (recordJson record)]
  | .ping nonce => obj [member "type" (str "ping"), member "nonce" (num nonce.toNat)]

/-! ## What the parser hands to the hooks -/

/-- A `serde_json::Value`, as far as `as_str` looks at it. -/
inductive Value where
  | string (s : String)
  | other
  deriving DecidableEq

def Value.asStr : Value → Option String
  | .string s => some s
  | .other => none

/-- A record before the hooks. The pointer may be absent; where it is
there, it is any JSON value, and `null` is `some none`. -/
structure RawRecord where
  contentKey : String
  providerPeerId : String
  addresses : List CandidateAddr
  expiresAt : Nat
  unverifiedMirrorCoinId : Option (Option Value)
  deriving DecidableEq

/-- A contact before the hooks differs in its addresses only. -/
inductive RawRequest where
  | findNode (target : String)
  | findProviders (contentKey : String)
  | addProvider (record : RawRecord)
  | ping (nonce : UInt64)
  deriving DecidableEq

inductive RawResponse where
  | nodes (nodes : List Contact)
  | providers (providers : List RawRecord) (closer : List Contact)
  | addProviderOk
  | pong (nonce : UInt64)
  | error (code : UInt32) (message : String)
  deriving DecidableEq

/-! ### What the crate's own bodies read as -/

/-- A pointer is written as a string, and not at all where there is none. -/
def rawRecord (r : ProviderRecord) : RawRecord where
  contentKey := r.contentKey
  providerPeerId := r.providerPeerId
  addresses := r.addresses
  expiresAt := r.expiresAt
  unverifiedMirrorCoinId := r.unverifiedMirrorCoinId.map fun coinId => some (.string coinId)

def DhtRequest.raw : DhtRequest → RawRequest
  | .findNode target => .findNode target
  | .findProviders contentKey => .findProviders contentKey
  | .addProvider record => .addProvider (rawRecord record)
  | .ping nonce => .ping nonce

def DhtResponse.raw : DhtResponse → RawResponse
  | .nodes contacts => .nodes contacts
  | .providers records closer => .providers (records.map rawRecord) closer
  | .addProviderOk => .addProviderOk
  | .pong nonce => .pong nonce
  | .error code message => .error code message

/-! ## The hooks -/

def deserializeMirrorCoinId (raw : Option Value) : Option String :=
  normalizeMirrorCoinId (raw.bind Value.asStr)

section Hooks

variable [Deps]

def deserializeCappedAddresses (addresses : List CandidateAddr) : List CandidateAddr :=
  sortAndCapAddresses addresses

/-- The derived deserializer of a record: an absent pointer is the
default, without the hook. -/
def RawRecord.decoded (raw : RawRecord) : ProviderRecord where
  contentKey := raw.contentKey
  providerPeerId := raw.providerPeerId
  addresses := deserializeCappedAddresses raw.addresses
  expiresAt := raw.expiresAt
  unverifiedMirrorCoinId := raw.unverifiedMirrorCoinId.elim none deserializeMirrorCoinId

/-- The derived deserializer of a contact. -/
def decodedContact (raw : Contact) : Contact where
  peerId := raw.peerId
  addresses := deserializeCappedAddresses raw.addresses

def RawRequest.decoded : RawRequest → DhtRequest
  | .findNode target => .findNode target
  | .findProviders contentKey => .findProviders contentKey
  | .addProvider record => .addProvider record.decoded
  | .ping nonce => .ping nonce

def RawResponse.decoded : RawResponse → DhtResponse
  | .nodes contacts => .nodes (contacts.map decodedContact)
  | .providers records closer =>
    .providers (records.map RawRecord.decoded) (closer.map decodedContact)
  | .addProviderOk => .addProviderOk
  | .pong nonce => .pong nonce
  | .error code message => .error code message

end Hooks

/-! ## Reading a frame -/

/-- `read_exact`: the next `n` bytes and what is left unread. -/
def readExact (n : Nat) (stream : List UInt8) : Option (List UInt8 × List UInt8) :=
  if stream.length < n then none else some (stream.take n, stream.drop n)

/-- `decode_framed` once it has read the length. -/
def decodeBody {α : Type} (fromSlice : List UInt8 → Option α) (len : Nat)
    (stream : List UInt8) : Except DecodeError (α × List UInt8) :=
  if maxFramedBody < len then .error .tooLarge
  else
    match readExact len stream with
    | none => .error .unexpectedEof
    | some (body, unread) =>
      match fromSlice body with
      | none => .error .malformed
      | some message => .ok (message, unread)

/-- `decode_framed`: the message, and the stream behind it. -/
def decodeFramedFrom {α : Type} (fromSlice : List UInt8 → Option α) :
    List UInt8 → Except DecodeError (α × List UInt8)
  | a :: b :: c :: d :: rest => decodeBody fromSlice (fromBeBytes a b c d) rest
  | _ => .error .unexpectedEof

section Reader

variable {α : Type} (fromSlice : List UInt8 → Option α)

theorem readExact_of_lt {n : Nat} {stream : List UInt8} (h : stream.length < n) :
    readExact n stream = none :=
  if_pos h

theorem readExact_of_le {n : Nat} {stream : List UInt8} (h : n ≤ stream.length) :
    readExact n stream = some (stream.take n, stream.drop n) :=
  if_neg (Nat.not_lt.mpr h)

theorem decodeBody_of_tooLarge {len : Nat} (h : maxFramedBody < len) (stream : List UInt8) :
    decodeBody fromSlice len stream = .error .tooLarge :=
  if_pos h

theorem decodeBody_of_lt {len : Nat} {stream : List UInt8} (hfits : len ≤ maxFramedBody)
    (h : stream.length < len) : decodeBody fromSlice len stream = .error .unexpectedEof := by
  rw [decodeBody, if_neg (Nat.not_lt.mpr hfits), readExact_of_lt h]

theorem decodeBody_of_le {len : Nat} {stream : List UInt8} (hfits : len ≤ maxFramedBody)
    (h : len ≤ stream.length) :
    decodeBody fromSlice len stream =
      ((fromSlice (stream.take len)).map fun message => (message, stream.drop len)).elim
        (.error .malformed) .ok := by
  rw [decodeBody, if_neg (Nat.not_lt.mpr hfits), readExact_of_le h]
  cases hslice : fromSlice (stream.take len) <;> simp [hslice]

/-- `decodeFramed` is the message alone. -/
theorem decodeFramed_eq (stream : List UInt8) :
    decodeFramed fromSlice stream = (decodeFramedFrom fromSlice stream).map Prod.fst := by
  match stream with
  | a :: b :: c :: d :: rest =>
    simp only [decodeFramed, decodeFramedFrom]
    generalize fromBeBytes a b c d = len
    by_cases hlarge : maxFramedBody < len
    · rw [if_pos hlarge, decodeBody_of_tooLarge fromSlice hlarge]
      rfl
    · rw [if_neg hlarge]
      by_cases hshort : rest.length < len
      · rw [if_pos hshort, decodeBody_of_lt fromSlice (Nat.not_lt.mp hlarge) hshort]
        rfl
      · rw [if_neg hshort,
          decodeBody_of_le fromSlice (Nat.not_lt.mp hlarge) (Nat.not_lt.mp hshort)]
        cases fromSlice (rest.take len) <;> rfl
  | [] | [_] | [_, _] | [_, _, _] => rfl

end Reader

variable [Deps]

/-- `DhtRequest::decode`. -/
def DhtRequest.decode (parse : List UInt8 → Option RawRequest) :
    List UInt8 → Except DecodeError (DhtRequest × List UInt8) :=
  decodeFramedFrom fun body => (parse body).map RawRequest.decoded

/-- `DhtResponse::decode`. -/
def DhtResponse.decode (parse : List UInt8 → Option RawResponse) :
    List UInt8 → Except DecodeError (DhtResponse × List UInt8) :=
  decodeFramedFrom fun body => (parse body).map RawResponse.decoded

end DigDht.Wire
