/-
DigDht.Wire.RoundTripTheorems — what decoding accepts, and what it makes
of it.

§1 is the frame: the reader accepts a stream exactly when it starts with
a frame whose body is within `maxFramedBody` and parses, and it stops
behind that frame (`decodeFramedFrom_eq_ok_iff`). §2 is the message: the
hooks bring every address list and every pointer into shape (`norm`), and
a message already in shape is left alone. §3 is why a decoded message can
be sent on: it is no longer than it was.
-/
import DigDht.Wire.Codec
import DigDht.Wire.FrameTheorems

namespace DigDht.Wire

open Keyspace Record Routing CompactJson

/-! ## §1 Frames -/

/-- The length a stream declares, once its four bytes are there. -/
def declaredLength : List UInt8 → Option Nat
  | a :: b :: c :: d :: _ => some (fromBeBytes a b c d)
  | _ => none

theorem lengthPrefix_fromBeBytes (a b c d : UInt8) :
    lengthPrefix (fromBeBytes a b c d) = [a, b, c, d] := by
  have ha := a.toNat_lt
  have hb := b.toNat_lt
  have hc := c.toNat_lt
  have hd := d.toNat_lt
  simp only [lengthPrefix, fromBeBytes, List.cons.injEq, and_true, ← UInt8.toNat_inj,
    UInt8.toNat_ofNat']
  omega

section Frames

variable {α : Type} (fromSlice : List UInt8 → Option α)

/-- With its length known, a body is accepted if it is there and parses. -/
theorem decodeBody_eq_ok_iff {len : Nat} {stream unread : List UInt8} {message : α} :
    decodeBody fromSlice len stream = .ok (message, unread) ↔
      ∃ body, stream = body ++ unread ∧ body.length = len ∧ len ≤ maxFramedBody ∧
        fromSlice body = some message := by
  constructor
  · intro h
    by_cases hlarge : maxFramedBody < len
    · rw [decodeBody_of_tooLarge fromSlice hlarge] at h
      cases h
    · have hfits := Nat.not_lt.mp hlarge
      by_cases hshort : stream.length < len
      · rw [decodeBody_of_lt fromSlice hfits hshort] at h
        cases h
      · have henough := Nat.not_lt.mp hshort
        rw [decodeBody_of_le fromSlice hfits henough] at h
        cases hslice : fromSlice (stream.take len) with
        | none => simp [hslice] at h
        | some found =>
          simp only [hslice, Option.map_some, Option.elim_some, Except.ok.injEq,
            Prod.mk.injEq] at h
          obtain ⟨rfl, rfl⟩ := h
          exact ⟨stream.take len, (List.take_append_drop len stream).symm,
            List.length_take_of_le henough, hfits, hslice⟩
  · rintro ⟨body, rfl, rfl, hfits, hslice⟩
    rw [decodeBody_of_le fromSlice hfits (by simp)]
    simp [hslice]

/-- The reader accepts a frame that parses, whatever follows it, and
nothing else; it reads the frame and no byte more. -/
theorem decodeFramedFrom_eq_ok_iff {stream unread : List UInt8} {message : α} :
    decodeFramedFrom fromSlice stream = .ok (message, unread) ↔
      ∃ body, stream = encodeFramed body ++ unread ∧ body.length ≤ maxFramedBody ∧
        fromSlice body = some message := by
  constructor
  · intro h
    unfold decodeFramedFrom at h
    split at h
    · rename_i a b c d rest
      obtain ⟨body, rfl, hlen, hfits, hslice⟩ := (decodeBody_eq_ok_iff fromSlice).mp h
      refine ⟨body, ?_, hlen ▸ hfits, hslice⟩
      rw [encodeFramed, hlen, lengthPrefix_fromBeBytes]
      rfl
    · cases h
  · rintro ⟨body, rfl, hfits, hslice⟩
    have hlen : body.length < 2 ^ 32 := lt_of_le_of_lt hfits (by decide)
    simp only [encodeFramed, lengthPrefix, List.cons_append, List.nil_append, decodeFramedFrom,
      fromBeBytes_lengthPrefix hlen]
    exact (decodeBody_eq_ok_iff fromSlice).mpr ⟨body, rfl, rfl, hfits, hslice⟩

theorem decodeFramedFrom_of_tooLarge {stream : List UInt8} {len : Nat}
    (hlen : declaredLength stream = some len) (hlarge : maxFramedBody < len) :
    decodeFramedFrom fromSlice stream = .error .tooLarge := by
  unfold declaredLength at hlen
  split at hlen
  · rename_i a b c d rest
    rw [Option.some.injEq] at hlen
    rw [decodeFramedFrom, hlen]
    exact decodeBody_of_tooLarge fromSlice hlarge rest
  · cases hlen

/-- An accepted stream has the whole frame it declares. -/
theorem decodeFramedFrom_of_short {stream : List UInt8}
    (hshort : ∀ len, declaredLength stream = some len → stream.length < 4 + len) :
    ∃ e, decodeFramedFrom fromSlice stream = .error e := by
  cases hdecode : decodeFramedFrom fromSlice stream with
  | error e => exact ⟨e, rfl⟩
  | ok found =>
    obtain ⟨message, unread⟩ := found
    obtain ⟨body, rfl, hfits, -⟩ := (decodeFramedFrom_eq_ok_iff fromSlice).mp hdecode
    have hlen : body.length < 2 ^ 32 := lt_of_le_of_lt hfits (by decide)
    have hdeclared := hshort body.length (congrArg some (fromBeBytes_lengthPrefix hlen))
    simp [encodeFramed, lengthPrefix] at hdeclared
    omega

end Frames

section Messages

variable [Deps]

/-! ## §2 Messages in shape -/

theorem capped_of_wellShaped {c : Contact} (h : WellShaped c.addresses) : c.capped = c := by
  rw [Contact.capped, wellShaped_iff.mp h]

theorem normalized_of_shaped {r : ProviderRecord} (h : r.Shaped) : r.normalized = r := by
  have hpointer : normalizeMirrorCoinId r.unverifiedMirrorCoinId = r.unverifiedMirrorCoinId := by
    cases hcoin : r.unverifiedMirrorCoinId with
    | none => rfl
    | some coinId => exact normalizeMirrorCoinId_of_lowerHex64 (h.pointer coinId hcoin)
  rw [ProviderRecord.normalized, wellShaped_iff.mp h.addresses, hpointer]

/-- Whatever JSON a record was, it is in shape behind the hooks. -/
theorem RawRecord.shaped_decoded (raw : RawRecord) : raw.decoded.Shaped where
  addresses := wellShaped_sortAndCap raw.addresses
  pointer := by
    intro coinId h
    unfold decoded at h
    cases hpointer : raw.unverifiedMirrorCoinId with
    | none => simp [hpointer] at h
    | some value =>
      simp only [hpointer, Option.elim_some] at h
      exact lowerHex64_of_normalize h

/-- The crate's own record reads back as its canonical form. -/
theorem decoded_rawRecord (r : ProviderRecord) : (rawRecord r).decoded = r.normalized := by
  cases hcoin : r.unverifiedMirrorCoinId <;>
    simp [rawRecord, RawRecord.decoded, ProviderRecord.normalized, deserializeCappedAddresses,
      deserializeMirrorCoinId, Value.asStr, hcoin, normalizeMirrorCoinId_eq]

namespace DhtRequest

/-- Every record of the message in canonical form. -/
def norm : DhtRequest → DhtRequest
  | .addProvider record => .addProvider record.normalized
  | request => request

/-- The record a request carries. -/
def record : DhtRequest → Option ProviderRecord
  | .addProvider record => some record
  | _ => none

/-- The record is in shape, if there is one. -/
def Shaped (m : DhtRequest) : Prop :=
  ∀ r ∈ m.record, r.Shaped

theorem decoded_raw (m : DhtRequest) : m.raw.decoded = m.norm := by
  cases m with
  | addProvider record => exact congrArg addProvider (decoded_rawRecord record)
  | findNode target => rfl
  | findProviders contentKey => rfl
  | ping nonce => rfl

theorem shaped_decoded (raw : RawRequest) : raw.decoded.Shaped := by
  intro r hr
  cases raw with
  | addProvider record =>
    cases hr
    exact record.shaped_decoded
  | findNode target => cases hr
  | findProviders contentKey => cases hr
  | ping nonce => cases hr

theorem norm_of_shaped {m : DhtRequest} (h : m.Shaped) : m.norm = m := by
  cases m with
  | addProvider record => exact congrArg addProvider (normalized_of_shaped (h record rfl))
  | findNode target => rfl
  | findProviders contentKey => rfl
  | ping nonce => rfl

@[simp] theorem norm_norm (m : DhtRequest) : m.norm.norm = m.norm :=
  norm_of_shaped (m.decoded_raw ▸ shaped_decoded m.raw)

end DhtRequest

namespace DhtResponse

/-- Every contact of the message capped, every record in canonical form. -/
def norm : DhtResponse → DhtResponse
  | .nodes contacts => .nodes (contacts.map Contact.capped)
  | .providers records closer =>
    .providers (records.map ProviderRecord.normalized) (closer.map Contact.capped)
  | response => response

/-- All that the message lists is in shape. -/
structure Shaped (m : DhtResponse) : Prop where
  records : ∀ r ∈ m.records, r.Shaped
  contacts : ∀ c ∈ m.contacts, WellShaped c.addresses

theorem decoded_raw (m : DhtResponse) : m.raw.decoded = m.norm := by
  cases m with
  | providers records closer =>
    simp only [raw, RawResponse.decoded, norm, List.map_map]
    congr 1
    exact List.map_congr_left fun r _ => decoded_rawRecord r
  | nodes contacts => rfl
  | addProviderOk => rfl
  | pong nonce => rfl
  | error code message => rfl

theorem shaped_decoded (raw : RawResponse) : raw.decoded.Shaped := by
  constructor
  · intro r hr
    cases raw with
    | providers records closer =>
      obtain ⟨r, -, rfl⟩ := List.mem_map.mp hr
      exact r.shaped_decoded
    | _ => simp [RawResponse.decoded, records] at hr
  · intro c hc
    cases raw with
    | nodes contacts =>
      obtain ⟨c, -, rfl⟩ := List.mem_map.mp hc
      exact wellShaped_sortAndCap c.addresses
    | providers records closer =>
      obtain ⟨c, -, rfl⟩ := List.mem_map.mp hc
      exact wellShaped_sortAndCap c.addresses
    | _ => simp [RawResponse.decoded, contacts] at hc

theorem norm_of_shaped {m : DhtResponse} (h : m.Shaped) : m.norm = m := by
  have hcontacts : m.contacts.map Contact.capped = m.contacts :=
    (List.map_congr_left fun c hc => capped_of_wellShaped (h.contacts c hc)).trans
      (List.map_id _)
  have hrecords : m.records.map ProviderRecord.normalized = m.records :=
    (List.map_congr_left fun r hr => normalized_of_shaped (h.records r hr)).trans (List.map_id _)
  cases m with
  | nodes contacts => exact congrArg nodes hcontacts
  | providers records closer => exact congrArg₂ providers hrecords hcontacts
  | addProviderOk => rfl
  | pong nonce => rfl
  | error code message => rfl

@[simp] theorem norm_norm (m : DhtResponse) : m.norm.norm = m.norm :=
  norm_of_shaped (m.decoded_raw ▸ shaped_decoded m.raw)

end DhtResponse

/-! ## §3 Decoding makes nothing longer -/

theorem length_contactJson_capped_le (c : Contact) :
    (contactJson c.capped).length ≤ (contactJson c).length := by
  have haddresses := length_arr_mono (f := addrJson) (g := addrJson)
    (sortAndCapAddresses_subperm c.addresses) fun _ _ => le_rfl
  simp only [contactJson, Contact.capped, length_obj, List.map_cons, List.map_nil,
    List.sum_cons, List.sum_nil, length_member, List.length_cons, List.length_nil]
  omega

omit [Deps] in
/-- A pointer is dropped, or stays 64 digits. -/
theorem length_pointerJson_normalize_le (pointer : Option String) :
    ((pointerJson (normalizeMirrorCoinId pointer)).map List.length).sum ≤
        ((pointerJson pointer).map List.length).sum ∧
      (pointerJson (normalizeMirrorCoinId pointer)).length ≤ (pointerJson pointer).length := by
  cases pointer with
  | none => exact ⟨le_rfl, le_rfl⟩
  | some coinId =>
    rw [normalizeMirrorCoinId_eq, Option.bind_some]
    cases hdecode : hex64ToBytes coinId with
    | none => simp [pointerJson]
    | some bytes =>
      have hwritten := length_escaped_of_hex (s := coinId) (by rw [hdecode]; rfl)
      have hcanonical := length_escaped_of_hex (s := toHex64 bytes) (by simp)
      simp [pointerJson, hwritten, hcanonical]

theorem length_recordJson_normalized_le (r : ProviderRecord) :
    (recordJson r.normalized).length ≤ (recordJson r).length := by
  have haddresses := length_arr_mono (f := addrJson) (g := addrJson)
    (sortAndCapAddresses_subperm r.addresses) fun _ _ => le_rfl
  have hpointer := length_pointerJson_normalize_le r.unverifiedMirrorCoinId
  simp only [recordJson, ProviderRecord.normalized, length_obj, List.map_append, List.sum_append,
    List.map_cons, List.map_nil, List.sum_cons, List.sum_nil, length_member, List.length_append,
    List.length_cons, List.length_nil]
  omega

theorem DhtRequest.length_body_norm_le (m : DhtRequest) :
    m.norm.body.length ≤ m.body.length := by
  cases m with
  | addProvider record =>
    have hrecord := length_recordJson_normalized_le record
    simp only [norm, body, length_obj, List.map_cons, List.map_nil, List.sum_cons, List.sum_nil,
      length_member, List.length_cons, List.length_nil]
    omega
  | findNode target => exact le_rfl
  | findProviders contentKey => exact le_rfl
  | ping nonce => exact le_rfl

theorem DhtResponse.length_body_norm_le (m : DhtResponse) :
    m.norm.body.length ≤ m.body.length := by
  have hcontacts : ∀ contacts : List Contact,
      (arr ((contacts.map Contact.capped).map contactJson)).length ≤
        (arr (contacts.map contactJson)).length := by
    intro contacts
    rw [List.map_map]
    exact length_arr_mono (List.Subperm.refl _) fun c _ => length_contactJson_capped_le c
  cases m with
  | nodes contacts =>
    have hnodes := hcontacts contacts
    simp only [norm, body, length_obj, List.map_cons, List.map_nil, List.sum_cons, List.sum_nil,
      length_member, List.length_cons, List.length_nil]
    omega
  | providers records closer =>
    have hcloser := hcontacts closer
    have hrecords : (arr ((records.map ProviderRecord.normalized).map recordJson)).length ≤
        (arr (records.map recordJson)).length := by
      rw [List.map_map]
      exact length_arr_mono (List.Subperm.refl _) fun r _ => length_recordJson_normalized_le r
    simp only [norm, body, length_obj, List.map_cons, List.map_nil, List.sum_cons, List.sum_nil,
      length_member, List.length_cons, List.length_nil]
    omega
  | addProviderOk => exact le_rfl
  | pong nonce => exact le_rfl
  | error code message => exact le_rfl

end Messages

end DigDht.Wire
