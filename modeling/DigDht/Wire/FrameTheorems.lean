/-
DigDht.Wire.FrameTheorems — how long a response is.

Everything in a response has a length of its own making except the
hosts: an identifier is 64 hex digits and escapes to itself, a port has
at most 5 digits, an expiry at most 20. `hostBytes` is what the hosts of
an address list take inside their quotes, ESCAPED; a list of at most 8
addresses takes at most 353 bytes more. The response of a node to
`find_providers` is at most 20 records and 20 contacts
(`length_providers_le`), which leaves 5997 bytes of hosts for each of
them (`hostBudget`).
-/
import DigDht.Keyspace.CodecTheorems
import DigDht.Wire.Frame

namespace DigDht.Wire

open Keyspace Record Routing CompactJson

/-! ## §1 Identifiers -/

theorem toDigit16_plain {b : UInt8} (h : (toDigit16 b).isSome) : escapeByte b = [b] :=
  forall_uint8 (p := fun b => (toDigit16 b).isSome → escapeByte b = [b]) (by decide +kernel) b h

/-- A 64-digit hex text has nothing to escape. -/
theorem length_escaped_of_hex {s : String} (h : (hex64ToBytes s).isSome) :
    (escaped s).length = 64 := by
  obtain ⟨hlen, hdigits⟩ := isSome_hex64ToBytes_iff_bytes.mp h
  have hplain := length_escaped_of_plain fun b hb => toDigit16_plain (hdigits b hb)
  exact hplain.trans hlen

/-! ## §2 Records and contacts -/

/-- The bytes of a host, escaped. -/
def hostLength (a : CandidateAddr) : Nat :=
  (escaped a.host).length

/-- The bytes of the hosts of an address list, escaped. -/
def hostBytes (addresses : List CandidateAddr) : Nat :=
  (addresses.map hostLength).sum

/-- The most a capped address list can take: 8 hosts of 253 bytes, each
escaped to six. -/
def maxHostBytes : Nat := maxAddressesPerRecord * (6 * maxHostLen)

/-- The bytes of hosts each of the 40 address lists of an answer may have. -/
def hostBudget : Nat := 5997

/-- An address list with at most 8 addresses and `budget` bytes of hosts. -/
structure Slim (budget : Nat) (addresses : List CandidateAddr) : Prop where
  count : addresses.length ≤ maxAddressesPerRecord
  hosts : hostBytes addresses ≤ budget

/-- A contact as the table holds it. -/
structure SlimContact (budget : Nat) (c : Contact) : Prop where
  peerId : (hex64ToBytes c.peerId).isSome
  addresses : Slim budget c.addresses

/-- A record as the store holds it. -/
structure SlimRecord (budget : Nat) (r : ProviderRecord) : Prop where
  contentKey : (hex64ToBytes r.contentKey).isSome
  providerPeerId : (hex64ToBytes r.providerPeerId).isSome
  addresses : Slim budget r.addresses
  expiresAt : r.expiresAt ≤ u64Max
  pointer : ∀ coinId, r.unverifiedMirrorCoinId = some coinId → (hex64ToBytes coinId).isSome

theorem length_addrJson_le (a : CandidateAddr) : (addrJson a).length ≤ 43 + hostLength a := by
  have hport : (num a.port.toNat).length ≤ 5 :=
    length_num_le (by decide) (lt_of_lt_of_le a.port.toNat_lt (by decide))
  have hkind : (escaped (kindName a.kind)).length ≤ 9 := by
    cases a.kind <;> decide
  have hnames : (escaped "host").length = 4 ∧ (escaped "port").length = 4 ∧
      (escaped "kind").length = 4 := by decide
  obtain ⟨h₁, h₂, h₃⟩ := hnames
  simp only [addrJson, length_obj, List.map_cons, List.map_nil, List.sum_cons, List.sum_nil,
    length_member, length_str, List.length_cons, List.length_nil, h₁, h₂, h₃, hostLength]
  omega

theorem hostLength_le_length_addrJson (a : CandidateAddr) :
    hostLength a ≤ (addrJson a).length := by
  simp only [addrJson, length_obj, List.map_cons, List.sum_cons, length_member, length_str,
    hostLength]
  omega

theorem length_addresses_le {budget : Nat} {addresses : List CandidateAddr}
    (h : Slim budget addresses) : (arr (addresses.map addrJson)).length ≤ 353 + budget := by
  have hlist := length_arr_map_le (fun a _ => length_addrJson_le a) h.count (by decide)
  have hhosts : (addresses.map hostLength).sum ≤ budget := h.hosts
  simp only [maxAddressesPerRecord] at hlist
  omega

theorem length_contactJson_le {budget : Nat} {c : Contact} (h : SlimContact budget c) :
    (contactJson c).length ≤ 444 + budget := by
  have haddresses := length_addresses_le h.addresses
  have hid := length_escaped_of_hex h.peerId
  have hnames : (escaped "peer_id").length = 7 ∧ (escaped "addresses").length = 9 := by decide
  obtain ⟨h₁, h₂⟩ := hnames
  simp only [contactJson, length_obj, List.map_cons, List.map_nil, List.sum_cons, List.sum_nil,
    length_member, length_str, List.length_cons, List.length_nil, h₁, h₂, hid]
  omega

theorem length_recordJson_le {budget : Nat} {r : ProviderRecord} (h : SlimRecord budget r) :
    (recordJson r).length ≤ 663 + budget := by
  have haddresses := length_addresses_le h.addresses
  have hkey := length_escaped_of_hex h.contentKey
  have hid := length_escaped_of_hex h.providerPeerId
  have hexpires : (num r.expiresAt).length ≤ 20 :=
    length_num_le (by decide) (lt_of_le_of_lt h.expiresAt (by decide))
  have hnames : (escaped "content_key").length = 11 ∧ (escaped "provider_peer_id").length = 16 ∧
      (escaped "addresses").length = 9 ∧ (escaped "expires_at").length = 10 ∧
      (escaped "unverified_mirror_coin_id").length = 25 := by decide
  obtain ⟨h₁, h₂, h₃, h₄, h₅⟩ := hnames
  have hpointer : ((pointerJson r.unverifiedMirrorCoinId).map List.length).sum +
      (pointerJson r.unverifiedMirrorCoinId).length ≤ 95 := by
    cases hcoin : r.unverifiedMirrorCoinId with
    | none => decide
    | some coinId =>
      have hcoin64 := length_escaped_of_hex (h.pointer coinId hcoin)
      simp [pointerJson, hcoin64, h₅]
  simp only [recordJson, length_obj, List.map_append, List.sum_append, List.map_cons,
    List.map_nil, List.sum_cons, List.sum_nil, length_member, length_str, List.length_append,
    List.length_cons, List.length_nil, h₁, h₂, h₃, h₄, hkey, hid]
  omega

theorem hostBytes_le_length_contactJson (c : Contact) :
    hostBytes c.addresses ≤ (contactJson c).length := by
  have haddresses : hostBytes c.addresses ≤ (arr (c.addresses.map addrJson)).length :=
    le_length_arr fun a _ => hostLength_le_length_addrJson a
  simp only [contactJson, length_obj, List.map_cons, List.map_nil, List.sum_cons, length_member]
  omega

theorem hostBytes_le_length_recordJson (r : ProviderRecord) :
    hostBytes r.addresses ≤ (recordJson r).length := by
  have haddresses : hostBytes r.addresses ≤ (arr (r.addresses.map addrJson)).length :=
    le_length_arr fun a _ => hostLength_le_length_addrJson a
  simp only [recordJson, length_obj, List.map_append, List.sum_append, List.map_cons,
    List.sum_cons, length_member]
  omega

/-! ### Capping -/

section Capping

variable [Deps]

theorem sortAndCapAddresses_subperm (addresses : List CandidateAddr) :
    (sortAndCapAddresses addresses).Subperm addresses := by
  unfold sortAndCapAddresses sortAddressesIpv6First
  exact (List.take_sublist _ _).subperm.trans
    ((Selection.sortByKey_perm _ _).subperm.trans List.filter_sublist.subperm)

theorem hostBytes_sortAndCap_le (addresses : List CandidateAddr) :
    hostBytes (sortAndCapAddresses addresses) ≤ hostBytes addresses := by
  exact sum_map_mono (sortAndCapAddresses_subperm addresses) fun _ _ => le_rfl

theorem slim_sortAndCap {budget : Nat} {addresses : List CandidateAddr}
    (h : hostBytes (sortAndCapAddresses addresses) ≤ budget) :
    Slim budget (sortAndCapAddresses addresses) :=
  ⟨sortAndCapAddresses_length addresses, h⟩

theorem hostBytes_sortAndCap_le_max (addresses : List CandidateAddr) :
    hostBytes (sortAndCapAddresses addresses) ≤ maxHostBytes := by
  have hhost : ∀ n ∈ (sortAndCapAddresses addresses).map hostLength, n ≤ 6 * maxHostLen := by
    intro n hn
    obtain ⟨a, ha, rfl⟩ := List.mem_map.mp hn
    obtain ⟨-, hlen⟩ := mem_of_mem_sortAndCapAddresses ha
    exact le_trans (length_escaped_le a.host) (Nat.mul_le_mul_left 6 hlen)
  have hsum : hostBytes (sortAndCapAddresses addresses) ≤
      ((sortAndCapAddresses addresses).map hostLength).length * (6 * maxHostLen) :=
    List.sum_le_card_nsmul _ _ hhost
  rw [List.length_map] at hsum
  exact le_trans hsum (Nat.mul_le_mul_right _ (sortAndCapAddresses_length addresses))

end Capping

/-! ## §3 Responses -/

theorem length_nodes_le {budget : Nat} {contacts : List Contact} (hlen : contacts.length ≤ 20)
    (h : ∀ c ∈ contacts, SlimContact budget c) :
    (DhtResponse.nodes contacts).body.length ≤ 8926 + 20 * budget := by
  have hcontacts : (arr (contacts.map contactJson)).length ≤ 20 * (444 + budget + 1) + 1 :=
    length_arr_le (fun c hc => length_contactJson_le (h c hc)) hlen (by decide)
  have hnames : (escaped "type").length = 4 ∧ (escaped "nodes").length = 5 := by decide
  obtain ⟨h₁, h₂⟩ := hnames
  simp only [DhtResponse.body, length_obj, List.map_cons, List.map_nil, List.sum_cons,
    List.sum_nil, length_member, length_str, List.length_cons, List.length_nil, h₁, h₂]
  omega

theorem length_providers_le {budget : Nat} {records : List ProviderRecord} {closer : List Contact}
    (hrecords : records.length ≤ 20) (hcloser : closer.length ≤ 20)
    (hr : ∀ r ∈ records, SlimRecord budget r) (hc : ∀ c ∈ closer, SlimContact budget c) :
    (DhtResponse.providers records closer).body.length ≤ 22225 + 40 * budget := by
  have hfirst : (arr (records.map recordJson)).length ≤ 20 * (663 + budget + 1) + 1 :=
    length_arr_le (fun r hmem => length_recordJson_le (hr r hmem)) hrecords (by decide)
  have hsecond : (arr (closer.map contactJson)).length ≤ 20 * (444 + budget + 1) + 1 :=
    length_arr_le (fun c hmem => length_contactJson_le (hc c hmem)) hcloser (by decide)
  have hnames : (escaped "type").length = 4 ∧ (escaped "providers").length = 9 ∧
      (escaped "closer").length = 6 := by decide
  obtain ⟨h₁, h₂, h₃⟩ := hnames
  simp only [DhtResponse.body, length_obj, List.map_cons, List.map_nil, List.sum_cons,
    List.sum_nil, length_member, length_str, List.length_cons, List.length_nil, h₁, h₂, h₃]
  omega

theorem length_pong_le (nonce : UInt64) : (DhtResponse.pong nonce).body.length ≤ 60 := by
  have hnonce : (num nonce.toNat).length ≤ 20 :=
    length_num_le (by decide) (lt_of_lt_of_le nonce.toNat_lt (by decide))
  have hnames : (escaped "type").length = 4 ∧ (escaped "nonce").length = 5 ∧
      (escaped "pong").length = 4 := by decide
  obtain ⟨h₁, h₂, h₃⟩ := hnames
  simp only [DhtResponse.body, length_obj, List.map_cons, List.map_nil, List.sum_cons,
    List.sum_nil, length_member, length_str, List.length_cons, List.length_nil, h₁, h₂, h₃]
  omega

/-- A response is at least as long as the hosts in it. -/
theorem hostBytes_le_length_providers (records : List ProviderRecord) (closer : List Contact) :
    (records.map fun r => hostBytes r.addresses).sum +
        (closer.map fun c => hostBytes c.addresses).sum ≤
      (DhtResponse.providers records closer).body.length := by
  have hrecords := le_length_arr (l := records) fun r _ => hostBytes_le_length_recordJson r
  have hcloser := le_length_arr (l := closer) fun c _ => hostBytes_le_length_contactJson c
  simp only [DhtResponse.body, length_obj, List.map_cons, List.map_nil, List.sum_cons,
    length_member]
  omega

end DigDht.Wire
