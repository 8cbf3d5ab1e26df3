/-
DigDht.Wire.Frame — the JSON of a response, and the frame around it
(`src/wire.rs`, the derived serializers of `src/record.rs` and
`src/routing.rs`).

A body is compact JSON with the fields in the order of their
declarations, the response type in front, and no `unverified_mirror_coin_id`
where there is none. A frame is the body behind its length as a
big-endian `u32`. `decodeFramed` reads a frame off a stream that ends;
the JSON parser behind it is a parameter.
-/
import DigDht.Lib.CompactJson
import DigDht.Wire.Message

namespace DigDht.Wire

open Record Routing CompactJson

/-- `rename_all = "lowercase"`. -/
def kindName : AddressKind → String
  | .direct => "direct"
  | .mapped => "mapped"
  | .reflexive => "reflexive"
  | .relay => "relay"

def addrJson (a : CandidateAddr) : Text :=
  obj [member "host" (str a.host), member "port" (num a.port.toNat),
    member "kind" (str (kindName a.kind))]

def contactJson (c : Contact) : Text :=
  obj [member "peer_id" (str c.peerId), member "addresses" (arr (c.addresses.map addrJson))]

/-- `skip_serializing_if = "Option::is_none"`. -/
def pointerJson : Option String → List Text
  | none => []
  | some coinId => [member "unverified_mirror_coin_id" (str coinId)]

def recordJson (r : ProviderRecord) : Text :=
  obj ([member "content_key" (str r.contentKey),
    member "provider_peer_id" (str r.providerPeerId),
    member "addresses" (arr (r.addresses.map addrJson)),
    member "expires_at" (num r.expiresAt)] ++ pointerJson r.unverifiedMirrorCoinId)

/-- `serde_json::to_vec` of a response. -/
def DhtResponse.body : DhtResponse → Text
  | .nodes contacts =>
    obj [member "type" (str "nodes"), member "nodes" (arr (contacts.map contactJson))]
  | .providers records closer =>
    obj [member "type" (str "providers"), member "providers" (arr (records.map recordJson)),
      member "closer" (arr (closer.map contactJson))]
  | .addProviderOk => obj [member "type" (str "add_provider_ok")]
  | .pong nonce => obj [member "type" (str "pong"), member "nonce" (num nonce.toNat)]
  | .error code message =>
    obj [member "type" (str "error"), member "code" (num code.toNat),
      member "message" (str message)]

/-! ## Framing -/

/-- `MAX_FRAMED_BODY`. -/
def maxFramedBody : Nat := 256 * 1024

/-- `(len as u32).to_be_bytes()`. -/
def lengthPrefix (len : Nat) : List UInt8 :=
  [UInt8.ofNat (len / 2 ^ 24), UInt8.ofNat (len / 2 ^ 16), UInt8.ofNat (len / 2 ^ 8),
    UInt8.ofNat len]

/-- `u32::from_be_bytes`. -/
def fromBeBytes (a b c d : UInt8) : Nat :=
  a.toNat * 2 ^ 24 + b.toNat * 2 ^ 16 + c.toNat * 2 ^ 8 + d.toNat

def encodeFramed (body : Text) : List UInt8 :=
  lengthPrefix body.length ++ body

def DhtResponse.encode (r : DhtResponse) : List UInt8 :=
  encodeFramed r.body

inductive DecodeError where
  | unexpectedEof
  | tooLarge
  | malformed
  deriving DecidableEq

/-- `decode_framed`, over the bytes of a stream that ends. -/
def decodeFramed {α : Type} (fromSlice : List UInt8 → Option α) :
    List UInt8 → Except DecodeError α
  | a :: b :: c :: d :: rest =>
    let len := fromBeBytes a b c d
    if maxFramedBody < len then .error .tooLarge
    else if rest.length < len then .error .unexpectedEof
    else
      match fromSlice (rest.take len) with
      | none => .error .malformed
      | some message => .ok message
  | _ => .error .unexpectedEof

theorem fromBeBytes_lengthPrefix {len : Nat} (h : len < 2 ^ 32) :
    fromBeBytes (UInt8.ofNat (len / 2 ^ 24)) (UInt8.ofNat (len / 2 ^ 16))
      (UInt8.ofNat (len / 2 ^ 8)) (UInt8.ofNat len) = len := by
  simp only [fromBeBytes, UInt8.toNat_ofNat']
  omega

/-- A frame is refused as too large exactly when its body is. -/
theorem decodeFramed_encodeFramed_iff {α : Type} (fromSlice : List UInt8 → Option α) {body : Text}
    (h : body.length < 2 ^ 32) :
    decodeFramed fromSlice (encodeFramed body) = .error .tooLarge ↔
      maxFramedBody < body.length := by
  simp only [encodeFramed, lengthPrefix, List.cons_append, List.nil_append, decodeFramed,
    fromBeBytes_lengthPrefix h]
  by_cases hlarge : maxFramedBody < body.length
  · simp [hlarge]
  · rw [if_neg hlarge, if_neg (Nat.lt_irrefl _)]
    cases fromSlice (body.take body.length) <;> simp [hlarge]

end DigDht.Wire
