/-
DigDht.Wire.ReadingTheorems — a stream of frames has one reading.

A direction of a connection carries requests or responses. §1 is the
frame: it says where it ends, so the streams of one message type are
prefix free (`Unambiguous`) for every `to_vec` that some `from_slice`
reads back; the hooks run behind `from_slice` and have no part in it. §2
and §3 show that there is such a `to_vec`: in the compact JSON of
addresses, contacts and records, and of the bodies with their `type`
member in front, every message can be read.
-/
import DigDht.Lib.JsonReading
import DigDht.Wire.Codec

namespace DigDht.Wire

open Record Routing CompactJson

/-! ## §1 Streams -/

/-- A frame says where it ends. -/
theorem encodeFramed_cancel {body body' s s' : List UInt8} (hbody : body.length < 2 ^ 32)
    (hbody' : body'.length < 2 ^ 32) (h : encodeFramed body ++ s = encodeFramed body' ++ s') :
    body = body' ∧ s = s' := by
  simp only [encodeFramed, lengthPrefix, List.cons_append, List.nil_append, List.cons.injEq] at h
  obtain ⟨ha, hb, hc, hd, hrest⟩ := h
  have hlength : body.length = body'.length := by
    rw [← fromBeBytes_lengthPrefix hbody, ha, hb, hc, hd, fromBeBytes_lengthPrefix hbody']
  exact List.append_inj hrest hlength

theorem encodeFramed_ne_nil (body : Text) : encodeFramed body ≠ [] := by
  simp [encodeFramed, lengthPrefix]

section Streams

variable {α ρ : Type}

/-- What `encode` writes for one message after the other. -/
def stream (toVec : α → Text) (ms : List α) : List UInt8 :=
  ms.flatMap fun m => encodeFramed (toVec m)

/-- `from_slice` reads what `to_vec` wrote, as it stands before the hooks,
and its length fits the prefix. -/
structure Sendable (raw : α → ρ) (toVec : α → Text) (fromSlice : Text → Option ρ) (m : α) :
    Prop where
  reads : fromSlice (toVec m) = some (raw m)
  fits : (toVec m).length < 2 ^ 32

/-- The streams of one message type are prefix free: a stream begins with
another one only where its messages begin with the other's. So a stream
is the stream of one list of messages. -/
structure Unambiguous (raw : α → ρ) (toVec : α → Text) (fromSlice : Text → Option ρ) : Prop where
  prefix_iff : ∀ ms ms', (∀ m ∈ ms, Sendable raw toVec fromSlice m) →
    (∀ m ∈ ms', Sendable raw toVec fromSlice m) →
      (stream toVec ms <+: stream toVec ms' ↔ ms <+: ms')
  eq_iff : ∀ ms ms', (∀ m ∈ ms, Sendable raw toVec fromSlice m) →
    (∀ m ∈ ms', Sendable raw toVec fromSlice m) →
      (stream toVec ms = stream toVec ms' ↔ ms = ms')

variable {raw : α → ρ} {toVec : α → Text} {fromSlice : Text → Option ρ}

/-- What is read back was written once only. -/
theorem Sendable.eq_of_toVec_eq (hraw : Function.Injective raw) {m m' : α}
    (hm : Sendable raw toVec fromSlice m) (hm' : Sendable raw toVec fromSlice m')
    (h : toVec m = toVec m') : m = m' := by
  have hreads := hm.reads
  rw [h, hm'.reads] at hreads
  exact (hraw (Option.some.inj hreads)).symm

theorem messages_isPrefix (hraw : Function.Injective raw) {ms ms' : List α}
    (hms : ∀ m ∈ ms, Sendable raw toVec fromSlice m)
    (hms' : ∀ m ∈ ms', Sendable raw toVec fromSlice m)
    (h : stream toVec ms <+: stream toVec ms') : ms <+: ms' := by
  induction ms generalizing ms' with
  | nil => exact List.nil_prefix
  | cons m ms ih =>
    obtain ⟨hm, hms⟩ := List.forall_mem_cons.mp hms
    cases ms' with
    | nil =>
      have hnil := List.prefix_nil.mp h
      rw [stream, List.flatMap_cons, List.append_eq_nil_iff] at hnil
      exact absurd hnil.1 (encodeFramed_ne_nil _)
    | cons m' ms' =>
      obtain ⟨hm', hms'⟩ := List.forall_mem_cons.mp hms'
      obtain ⟨rest, hrest⟩ := h
      simp only [stream, List.flatMap_cons, List.append_assoc] at hrest
      obtain ⟨hbody, htail⟩ := encodeFramed_cancel hm.fits hm'.fits hrest
      rw [hm.eq_of_toVec_eq hraw hm' hbody]
      exact List.prefix_cons_inj m' |>.mpr (ih hms hms' ⟨rest, htail⟩)

theorem stream_isPrefix {ms ms' : List α} (h : ms <+: ms') :
    stream toVec ms <+: stream toVec ms' := by
  obtain ⟨rest, rfl⟩ := h
  rw [stream, stream, List.flatMap_append]
  exact List.prefix_append _ _

theorem unambiguous_of_injective (hraw : Function.Injective raw) :
    Unambiguous raw toVec fromSlice where
  prefix_iff ms ms' hms hms' :=
    ⟨messages_isPrefix hraw hms hms', stream_isPrefix⟩
  eq_iff ms ms' hms hms' := by
    constructor
    · intro h
      have hle := messages_isPrefix hraw hms hms' (h ▸ List.prefix_rfl)
      have hge := messages_isPrefix hraw hms' hms (h ▸ List.prefix_rfl)
      exact hle.eq_of_length_le hge.length_le
    · intro h
      rw [h]

end Streams

/-! ### The messages behind the JSON -/

theorem rawRecord_injective : Function.Injective rawRecord := by
  intro r r' h
  cases r
  cases r'
  simp only [rawRecord, RawRecord.mk.injEq] at h
  obtain ⟨rfl, rfl, rfl, rfl, hpointer⟩ := h
  have hsome : Function.Injective fun coinId : String => some (Value.string coinId) := by
    intro x x' hx
    simpa using hx
  rw [Option.map_injective hsome hpointer]

theorem DhtRequest.raw_injective : Function.Injective DhtRequest.raw := by
  intro m m' h
  cases m <;> cases m' <;> simp only [raw, reduceCtorEq, RawRequest.findNode.injEq,
    RawRequest.findProviders.injEq, RawRequest.addProvider.injEq, RawRequest.ping.injEq] at h
  case findNode.findNode => rw [h]
  case findProviders.findProviders => rw [h]
  case addProvider.addProvider => rw [rawRecord_injective h]
  case ping.ping => rw [h]

theorem DhtResponse.raw_injective : Function.Injective DhtResponse.raw := by
  intro m m' h
  cases m <;> cases m' <;> simp only [raw, reduceCtorEq, RawResponse.nodes.injEq,
    RawResponse.providers.injEq, RawResponse.pong.injEq, RawResponse.error.injEq] at h
  case nodes.nodes => rw [h]
  case providers.providers =>
    rw [List.map_injective_iff.mpr rawRecord_injective h.1, h.2]
  case addProviderOk.addProviderOk => rfl
  case pong.pong => rw [h]
  case error.error => rw [h.1, h.2]

/-- **Framing is prefix free.** Whatever `to_vec` writes for the messages
of two lists, if `from_slice` reads it back and its length fits the
prefix, then one stream begins with the other exactly where its messages
begin with the other's, and the streams are equal exactly where the
messages are. -/
theorem streams_unambiguous (toVecRequest : DhtRequest → Text)
    (fromSliceRequest : Text → Option RawRequest) (toVecResponse : DhtResponse → Text)
    (fromSliceResponse : Text → Option RawResponse) :
    Unambiguous DhtRequest.raw toVecRequest fromSliceRequest ∧
      Unambiguous DhtResponse.raw toVecResponse fromSliceResponse :=
  ⟨unambiguous_of_injective DhtRequest.raw_injective,
    unambiguous_of_injective DhtResponse.raw_injective⟩

/-! ## §2 Addresses, contacts, records -/

theorem kindName_injective : Function.Injective kindName := by
  intro k k' h
  cases k <;> cases k' <;> first | rfl | exact absurd h (by decide)

theorem port_injective : Function.Injective UInt16.toNat := by
  intro p p' h
  exact UInt16.toNat_inj.mp h

theorem readable_addrJson : Readable addrJson where
  opens a s s' := by simp [addrJson, obj]
  closes {a a' s s'} _ _ h := by
    obtain ⟨hhost, h⟩ := (readable_str.member "host").cancel_obj h
    obtain ⟨hport, h⟩ := ((readable_num.comp port_injective).member "port").cancel_more h
    obtain ⟨hkind, h⟩ := ((readable_str.comp kindName_injective).member "kind").cancel_more h
    refine ⟨?_, cancel_end h⟩
    cases a
    cases a'
    simp_all

theorem readable_addrs : Readable fun l : List CandidateAddr => arr (l.map addrJson) :=
  readable_arr readable_addrJson

theorem readable_contactJson : Readable contactJson where
  opens c s s' := by simp [contactJson, obj]
  closes {c c' s s'} _ _ h := by
    obtain ⟨hpeer, h⟩ := (readable_str.member "peer_id").cancel_obj h
    obtain ⟨haddrs, h⟩ := (readable_addrs.member "addresses").cancel_more h
    refine ⟨?_, cancel_end h⟩
    cases c
    cases c'
    simp_all

/-- A pointer is a member or is missing; the bracket behind it tells. -/
theorem cancel_pointer {p p' : Option String} {s s' : Text}
    (h : more (pointerJson p) ++ 125 :: s = more (pointerJson p') ++ 125 :: s') :
    p = p' ∧ s = s' := by
  cases p with
  | none =>
    cases p' with
    | none => exact ⟨rfl, cancel_end h⟩
    | some coinId' => simp [pointerJson, more] at h
  | some coinId =>
    cases p' with
    | none => simp [pointerJson, more] at h
    | some coinId' =>
      obtain ⟨hcoin, h⟩ :=
        (readable_str.member "unverified_mirror_coin_id").cancel_more h
      exact ⟨congrArg some hcoin, cancel_end h⟩

theorem readable_recordJson : Readable recordJson where
  opens r s s' := by simp [recordJson, obj]
  closes {r r' s s'} _ _ h := by
    obtain ⟨hkey, h⟩ := (readable_str.member "content_key").cancel_obj h
    obtain ⟨hpeer, h⟩ := (readable_str.member "provider_peer_id").cancel_more h
    obtain ⟨haddrs, h⟩ := (readable_addrs.member "addresses").cancel_more h
    obtain ⟨hexpires, h⟩ := (readable_num.member "expires_at").cancel_more h
    obtain ⟨hpointer, h⟩ := cancel_pointer h
    refine ⟨?_, h⟩
    cases r
    cases r'
    simp_all

/-! ## §3 Bodies -/

/-- The `type` member of a request. -/
def DhtRequest.tag : DhtRequest → String
  | .findNode _ => "find_node"
  | .findProviders _ => "find_providers"
  | .addProvider _ => "add_provider"
  | .ping _ => "ping"

/-- The members behind it. -/
def DhtRequest.fields : DhtRequest → List Text
  | .findNode target => [member "target" (str target)]
  | .findProviders contentKey => [member "content_key" (str contentKey)]
  | .addProvider record => [member "record" (recordJson record)]
  | .ping nonce => [member "nonce" (num nonce.toNat)]

def DhtResponse.tag : DhtResponse → String
  | .nodes _ => "nodes"
  | .providers _ _ => "providers"
  | .addProviderOk => "add_provider_ok"
  | .pong _ => "pong"
  | .error _ _ => "error"

def DhtResponse.fields : DhtResponse → List Text
  | .nodes contacts => [member "nodes" (arr (contacts.map contactJson))]
  | .providers records closer =>
    [member "providers" (arr (records.map recordJson)),
      member "closer" (arr (closer.map contactJson))]
  | .addProviderOk => []
  | .pong nonce => [member "nonce" (num nonce.toNat)]
  | .error code message => [member "code" (num code.toNat), member "message" (str message)]

theorem DhtRequest.body_eq (m : DhtRequest) :
    m.body = obj (member "type" (str m.tag) :: m.fields) := by
  cases m <;> rfl

theorem DhtResponse.body_eq (m : DhtResponse) :
    m.body = obj (member "type" (str m.tag) :: m.fields) := by
  cases m <;> rfl

theorem nonce_injective : Function.Injective UInt64.toNat := by
  intro n n' h
  exact UInt64.toNat_inj.mp h

theorem DhtRequest.readable_body : Readable DhtRequest.body where
  opens m s s' := by simp [body_eq, obj]
  closes {m m' s s'} _ _ h := by
    rw [body_eq, body_eq] at h
    obtain ⟨htag, h⟩ := (readable_str.member "type").cancel_obj h
    cases m with
    | findNode target =>
      cases m' with
      | findNode target' =>
        obtain ⟨htarget, h⟩ := (readable_str.member "target").cancel_more h
        exact ⟨congrArg findNode htarget, cancel_end h⟩
      | _ => simp [tag] at htag
    | findProviders contentKey =>
      cases m' with
      | findProviders contentKey' =>
        obtain ⟨hkey, h⟩ := (readable_str.member "content_key").cancel_more h
        exact ⟨congrArg findProviders hkey, cancel_end h⟩
      | _ => simp [tag] at htag
    | addProvider record =>
      cases m' with
      | addProvider record' =>
        obtain ⟨hrecord, h⟩ := (readable_recordJson.member "record").cancel_more h
        exact ⟨congrArg addProvider hrecord, cancel_end h⟩
      | _ => simp [tag] at htag
    | ping nonce =>
      cases m' with
      | ping nonce' =>
        obtain ⟨hnonce, h⟩ := ((readable_num.comp nonce_injective).member "nonce").cancel_more h
        exact ⟨congrArg ping hnonce, cancel_end h⟩
      | _ => simp [tag] at htag

theorem code_injective : Function.Injective UInt32.toNat := by
  intro c c' h
  exact UInt32.toNat_inj.mp h

theorem DhtResponse.readable_body : Readable DhtResponse.body where
  opens m s s' := by simp [body_eq, obj]
  closes {m m' s s'} _ _ h := by
    rw [body_eq, body_eq] at h
    obtain ⟨htag, h⟩ := (readable_str.member "type").cancel_obj h
    cases m with
    | nodes contacts =>
      cases m' with
      | nodes contacts' =>
        obtain ⟨hnodes, h⟩ := ((readable_arr readable_contactJson).member "nodes").cancel_more h
        exact ⟨congrArg nodes hnodes, cancel_end h⟩
      | _ => simp [tag] at htag
    | providers records closer =>
      cases m' with
      | providers records' closer' =>
        obtain ⟨hrecords, h⟩ :=
          ((readable_arr readable_recordJson).member "providers").cancel_more h
        obtain ⟨hcloser, h⟩ := ((readable_arr readable_contactJson).member "closer").cancel_more h
        exact ⟨congrArg₂ providers hrecords hcloser, cancel_end h⟩
      | _ => simp [tag] at htag
    | addProviderOk =>
      cases m' with
      | addProviderOk => exact ⟨rfl, cancel_end h⟩
      | _ => simp [tag] at htag
    | pong nonce =>
      cases m' with
      | pong nonce' =>
        obtain ⟨hnonce, h⟩ := ((readable_num.comp nonce_injective).member "nonce").cancel_more h
        exact ⟨congrArg pong hnonce, cancel_end h⟩
      | _ => simp [tag] at htag
    | error code message =>
      cases m' with
      | error code' message' =>
        obtain ⟨hcode, h⟩ := ((readable_num.comp code_injective).member "code").cancel_more h
        obtain ⟨hmessage, h⟩ := (readable_str.member "message").cancel_more h
        exact ⟨congrArg₂ error hcode hmessage, cancel_end h⟩
      | _ => simp [tag] at htag

/-! ### Reading them back -/

/-- The reader of what an unambiguous writer wrote. -/
noncomputable def readerOf {α ρ : Type} (raw : α → ρ) (write : α → Text) (text : Text) :
    Option ρ :=
  (Function.partialInv write text).map raw

/-- What is readable can be sent. -/
theorem sendable_of_readable {α ρ : Type} {raw : α → ρ} {write : α → Text} (h : Readable write)
    {ms : List α} (hfits : ∀ m ∈ ms, (write m).length < 2 ^ 32) :
    ∀ m ∈ ms, Sendable raw write (readerOf raw write) m := by
  intro m hm
  refine ⟨?_, hfits m hm⟩
  rw [readerOf, Function.partialInv_left h.injective, Option.map_some]

/-- Over the compact JSON: a ping is not the beginning of a longer one,
and a pong is not an error. -/
theorem streams_unambiguous_pings :
    ¬stream DhtRequest.body [.ping 7] <+: stream DhtRequest.body [.ping 77, .ping 7] ∧
      stream DhtResponse.body [.pong 7, .addProviderOk] ≠
        stream DhtResponse.body [.error 7 "pong", .addProviderOk] := by
  obtain ⟨hrequests, hresponses⟩ := streams_unambiguous DhtRequest.body
    (readerOf DhtRequest.raw DhtRequest.body) DhtResponse.body
    (readerOf DhtResponse.raw DhtResponse.body)
  have hsent := @sendable_of_readable _ _ DhtRequest.raw _ DhtRequest.readable_body
  have hserved := @sendable_of_readable _ _ DhtResponse.raw _ DhtResponse.readable_body
  constructor
  · rw [hrequests.prefix_iff _ _ (hsent (by decide +kernel)) (hsent (by decide +kernel))]
    decide
  · rw [Ne, hresponses.eq_iff _ _ (hserved (by decide +kernel)) (hserved (by decide +kernel))]
    decide

end DigDht.Wire
