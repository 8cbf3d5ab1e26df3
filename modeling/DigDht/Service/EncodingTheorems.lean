/-
DigDht.Service.EncodingTheorems — a message survives its own framing.

`RoundTrips` is the law of one message type: an encoded message is read
back in canonical form (`norm`), and exactly its own bytes are read;
`norm` is idempotent and leaves alone what was built by the crate; a
frame that is too long or cut short is an error. The serializer (`body`)
and the parser are parameters, and `Reads` says that the parser inverts
the serializer on one message.
-/
import DigDht.Service.ShapeTheorems
import DigDht.Wire.RoundTripTheorems

namespace DigDht.Service

open Keyspace Record Routing Wire CompactJson Runs

/-! ## §1 The law -/

structure RoundTrips {α : Type} (body : α → Text) (encode : α → List UInt8)
    (decode : List UInt8 → Except DecodeError (α × List UInt8)) (norm : α → α)
    (Reads Built : α → Prop) : Prop where
  decode_encode : ∀ m unread, (body m).length ≤ maxFramedBody → Reads m →
    decode (encode m ++ unread) = .ok (norm m, unread)
  norm_norm : ∀ m, norm (norm m) = norm m
  norm_built : ∀ m, Built m → norm m = m
  norm_decoded : ∀ stream m unread, decode stream = .ok (m, unread) → norm m = m
  decode_again : ∀ m unread, (body m).length ≤ maxFramedBody → Reads (norm m) →
    decode (encode (norm m) ++ unread) = .ok (norm m, unread)
  tooLarge : ∀ stream len, declaredLength stream = some len → maxFramedBody < len →
    decode stream = .error .tooLarge
  short : ∀ stream, (∀ len, declaredLength stream = some len → stream.length < 4 + len) →
    ∃ e, decode stream = .error e

/-- It holds of every codec whose hooks bring a message into a form that
they leave alone and that is no longer. -/
theorem RoundTrips.of_hooks {α ρ : Type} {body : α → Text} {raw : α → ρ} {decoded : ρ → α}
    {norm : α → α} {Built : α → Prop} (parse : List UInt8 → Option ρ)
    (hraw : ∀ m, decoded (raw m) = norm m) (hdecoded : ∀ r, norm (decoded r) = decoded r)
    (hlength : ∀ m, (body (norm m)).length ≤ (body m).length)
    (hbuilt : ∀ m, Built m → norm m = m) :
    RoundTrips body (fun m => encodeFramed (body m))
      (decodeFramedFrom fun bytes => (parse bytes).map decoded) norm
      (fun m => parse (body m) = some (raw m)) Built := by
  have hnorm : ∀ m, norm (norm m) = norm m := by
    intro m
    rw [← hraw m, hdecoded]
  have hread : ∀ m unread, (body m).length ≤ maxFramedBody → parse (body m) = some (raw m) →
      decodeFramedFrom (fun bytes => (parse bytes).map decoded)
        (encodeFramed (body m) ++ unread) = .ok (norm m, unread) := by
    intro m unread hfits hparse
    rw [decodeFramedFrom_eq_ok_iff]
    exact ⟨body m, rfl, hfits, by rw [hparse, Option.map_some, hraw]⟩
  refine ⟨hread, hnorm, hbuilt, ?_, ?_, ?_, ?_⟩
  · intro stream m unread h
    obtain ⟨bytes, -, -, hslice⟩ := (decodeFramedFrom_eq_ok_iff _).mp h
    obtain ⟨r, -, rfl⟩ := Option.map_eq_some_iff.mp hslice
    exact hdecoded r
  · intro m unread hfits hparse
    have hagain := hread (norm m) unread (le_trans (hlength m) hfits) hparse
    rwa [hnorm] at hagain
  · intro stream len hlen hlarge
    exact decodeFramedFrom_of_tooLarge _ hlen hlarge
  · intro stream hshort
    exact decodeFramedFrom_of_short _ hshort

section Built

variable [Deps]

/-! ## §2 What the crate builds -/

/-- The records the crate makes: constructed, given a pointer or the
pointer of another (a republish), admitted, cached, decoded. -/
inductive BuiltRecord : ProviderRecord → Prop
  | new (contentKey : Key) (provider : PeerId) (addresses : List CandidateAddr)
      (expiresAt : Nat) : BuiltRecord (.new contentKey provider addresses expiresAt)
  | withPointer {r : ProviderRecord} (coinId : Bytes32) (h : BuiltRecord r) :
      BuiltRecord (r.withUnverifiedMirrorCoinId coinId)
  | repointed {r r' : ProviderRecord} (h : BuiltRecord r) (h' : BuiltRecord r') :
      BuiltRecord { r with unverifiedMirrorCoinId := r'.unverifiedMirrorCoinId }
  | admitted (node : NodeProfile) (record : ProviderRecord) (now : Nat) :
      BuiltRecord (node.clampedRecord record now)
  | cached {node : NodeProfile} {contentKey : String} {now : Nat} {record entry : ProviderRecord}
      (h : node.cacheEntry contentKey now record = some entry) : BuiltRecord entry
  | decoded (raw : RawRecord) : BuiltRecord raw.decoded

theorem BuiltRecord.shaped {r : ProviderRecord} (h : BuiltRecord r) : r.Shaped := by
  induction h with
  | new contentKey provider addresses expiresAt => exact ⟨wellShaped_sortAndCap addresses, nofun⟩
  | withPointer coinId h ih =>
    refine ⟨ih.addresses, ?_⟩
    intro text htext
    cases htext
    exact lowerHex64_toHex64 coinId
  | repointed h h' ih ih' => exact ⟨ih.addresses, ih'.pointer⟩
  | admitted node record now => exact record.shaped_normalized.expiring _
  | cached h => exact NodeProfile.shaped_cacheEntry h
  | decoded raw => exact raw.shaped_decoded

inductive BuiltContact : Contact → Prop
  | new (peerId : PeerId) (addresses : List CandidateAddr) : BuiltContact (.new peerId addresses)
  | capped (c : Contact) : BuiltContact c.capped
  | decoded (raw : Contact) : BuiltContact (decodedContact raw)

theorem BuiltContact.wellShaped {c : Contact} (h : BuiltContact c) : WellShaped c.addresses := by
  cases h with
  | new peerId addresses => exact wellShaped_sortAndCap addresses
  | capped c => exact wellShaped_sortAndCap c.addresses
  | decoded raw => exact wellShaped_sortAndCap raw.addresses

def BuiltRequest (m : DhtRequest) : Prop :=
  ∀ r ∈ m.record, BuiltRecord r

structure BuiltResponse (m : DhtResponse) : Prop where
  records : ∀ r ∈ m.records, BuiltRecord r
  contacts : ∀ c ∈ m.contacts, BuiltContact c

/-- **Framing and normalisation round trip**, for both message types, any
`to_vec` that writes no message longer in canonical form and any
parser. -/
theorem framing_round_trip (toVecRequest : DhtRequest → Text)
    (parseRequest : List UInt8 → Option RawRequest) (toVecResponse : DhtResponse → Text)
    (parseResponse : List UInt8 → Option RawResponse)
    (hrequest : ∀ m, (toVecRequest m.norm).length ≤ (toVecRequest m).length)
    (hresponse : ∀ m, (toVecResponse m.norm).length ≤ (toVecResponse m).length) :
    RoundTrips toVecRequest (fun m => encodeFramed (toVecRequest m))
        (DhtRequest.decode parseRequest) DhtRequest.norm
        (fun m => parseRequest (toVecRequest m) = some m.raw) BuiltRequest ∧
      RoundTrips toVecResponse (fun m => encodeFramed (toVecResponse m))
        (DhtResponse.decode parseResponse) DhtResponse.norm
        (fun m => parseResponse (toVecResponse m) = some m.raw) BuiltResponse := by
  constructor
  · refine .of_hooks parseRequest DhtRequest.decoded_raw ?_ hrequest ?_
    · intro raw
      exact DhtRequest.norm_of_shaped (DhtRequest.shaped_decoded raw)
    · intro m hm
      exact DhtRequest.norm_of_shaped fun r hr => (hm r hr).shaped
  · refine .of_hooks parseResponse DhtResponse.decoded_raw ?_ hresponse ?_
    · intro raw
      exact DhtResponse.norm_of_shaped (DhtResponse.shaped_decoded raw)
    · intro m hm
      exact DhtResponse.norm_of_shaped
        ⟨fun r hr => (hm.records r hr).shaped, fun c hc => (hm.contacts c hc).wellShaped⟩

/-! ## §3 What a node says -/

theorem norm_of_shapedReply {m : DhtResponse} (h : (Reply.response m).Shaped) : m.norm = m := by
  apply DhtResponse.norm_of_shaped
  cases m with
  | nodes contacts => exact ⟨by simp [DhtResponse.records], h⟩
  | providers records closer => exact ⟨h.1, h.2⟩
  | _ => exact ⟨by simp [DhtResponse.records], by simp [DhtResponse.contacts]⟩

/-- No receiver's hooks change what a node sends or serves. -/
theorem DhtService.spoken_norm (localId : PeerId) (addresses : List CandidateAddr)
    (config : DhtConfig) (run : List (Input × World)) :
    EachStep stepState (fun svc x => (∀ y ∈ (step svc x.1 x.2).2.sent, y.2.norm = y.2) ∧
      ∀ m, (step svc x.1 x.2).2.reply = .response m → m.norm = m)
      (new localId addresses config) run := by
  refine eachStep_of_invariant (I := fun svc => svc.Valid ∧ svc.Shapely) ?_ ?_
    ⟨valid_new localId addresses config, shapely_new localId addresses config⟩
  · intro svc x _ hs
    exact ⟨valid_step hs.1 x.1 x.2, shapely_step hs.1 hs.2 x.1 x.2⟩
  · intro svc x _ hs
    constructor
    · intro y hy
      apply DhtRequest.norm_of_shaped
      intro r hr
      obtain ⟨c, request⟩ := y
      cases request with
      | addProvider record =>
        cases hr
        exact sendsShaped_step hs.2 x.1 x.2 _ hy r rfl
      | _ => cases hr
    · intro m hm
      have hreplies := replies_step svc x.1 x.2
      rw [hm] at hreplies
      cases hreplies with
      | plain hplain => exact norm_of_shapedReply (.of_plain hplain)
      | nodes hop hlearn key => exact norm_of_shapedReply ((hs.2.learn hlearn).closest key)
      | providers hop hlearn key =>
        have hlearnt := hs.2.learn hlearn
        exact norm_of_shapedReply ⟨shaped_get hlearnt.stored, hlearnt.closest key⟩

end Built

/-! ### A pointer in capitals -/

section Samples

attribute [local instance] sampleDeps

/-- A record as a peer may send it: nine addresses, the pointer in
capitals. -/
def untidyRecord : ProviderRecord :=
  { sampleRecord 171 200 with
    addresses := List.replicate 9 (.direct "a" 1)
    unverifiedMirrorCoinId := some (String.ofList (List.replicate 64 'A')) }

/-- The answers a parser reads back: these, and these in canonical form. -/
def readsBack (ms : List DhtResponse) (body : List UInt8) : Option RawResponse :=
  ((ms ++ ms.map DhtResponse.norm).find? fun m => m.body = body).map DhtResponse.raw

/-- Two answers in compact JSON back to back: the first is read in
canonical form, and the second is left on the stream. -/
theorem framing_round_trip_untidy :
    let untidy : DhtResponse := .providers [untidyRecord] [sampleContact 211]
    let next := (DhtResponse.pong 7).encode
    DhtResponse.decode (readsBack [untidy]) (untidy.encode ++ next) =
        .ok (untidy.norm, next) ∧
      untidy.norm ≠ untidy := by
  intro untidy next
  constructor
  · exact (framing_round_trip DhtRequest.body (fun _ => none) DhtResponse.body
      (readsBack [untidy]) DhtRequest.length_body_norm_le
      DhtResponse.length_body_norm_le).2.decode_encode untidy next (by decide +kernel)
      (by decide +kernel)
  · decide +kernel

end Samples

end DigDht.Service
