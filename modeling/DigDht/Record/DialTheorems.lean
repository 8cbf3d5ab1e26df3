/-
DigDht.Record.DialTheorems — the contract of the dial order, and what is
left of it behind the address cap.

§1 is the contract of `dialCandidates` on any list (`DialContract`). Two
candidates of one endpoint are of one family, so deduplication empties no
tier, and the reserved slot goes to the first candidate behind IPv6, which
is an IPv4 literal where there is one.

§2 composes it with the cap of `sortAndCapAddresses`, which reserves
nothing. What the rank decides survives that cap exactly when fewer than
eight candidates rank before one that has it (`exists_mem_sortAndCap_iff`).
-/
import DigDht.Routing.RoutingTable

namespace DigDht.Record

open Keyspace Selection Routing

section Dialing

variable [Deps]

namespace CandidateAddr

/-- `family_rank` 1: an IPv4 literal, an IPv4-mapped one included. -/
def isIpv4Literal (a : CandidateAddr) : Bool :=
  a.familyRank = 1

/-- The host is within `maxHostLen`. -/
def hostFits (a : CandidateAddr) : Bool :=
  (utf8 a.host).length ≤ maxHostLen

end CandidateAddr

section Contract

variable [IpText]

/-! ## §1 The contract -/

/-- The dial order before the cap. -/
def endpoints (addresses : List CandidateAddr) : List CandidateAddr :=
  keepFirst CandidateAddr.dialIdentity ∅
    (sortByKey CandidateAddr.familyThenKindRank (addresses.filter fun a => a.kind.isDialable))

theorem dialCandidates_eq (addresses : List CandidateAddr) :
    dialCandidates addresses = reserveFallbackSlotAndCap (endpoints addresses) := rfl

theorem mem_endpoints {addresses : List CandidateAddr} {a : CandidateAddr}
    (h : a ∈ endpoints addresses) : a ∈ addresses ∧ a.kind.isDialable = true := by
  have hsorted := (keepFirst_sublist _ _ _).subset h
  rwa [mem_sortByKey, List.mem_filter] at hsorted

theorem endpoints_sorted (addresses : List CandidateAddr) :
    (endpoints addresses).Pairwise fun a b => a.familyThenKindRank ≤ b.familyThenKindRank :=
  (sortByKey_pairwise _ _).sublist (keepFirst_sublist _ _ _)

theorem length_endpoints (addresses : List CandidateAddr) :
    (endpoints addresses).length =
      ((addresses.filter fun a => a.kind.isDialable).map CandidateAddr.dialIdentity).toFinset.card
    := by
  rw [endpoints, length_keepFirst]
  congr 1
  ext identity
  simp only [List.mem_toFinset, List.mem_map, mem_sortByKey]

/-- Deduplication empties no tier. -/
theorem exists_endpoint [LawfulIpText] {addresses : List CandidateAddr} {a : CandidateAddr}
    (ha : a ∈ addresses) (hdial : a.kind.isDialable = true) :
    ∃ b ∈ endpoints addresses, b.familyRank = a.familyRank := by
  have hidentity : a.dialIdentity ∈ (endpoints addresses).map CandidateAddr.dialIdentity := by
    refine (mem_map_keepFirst _).mpr ⟨?_, Finset.notMem_empty _⟩
    exact List.mem_map_of_mem ((mem_sortByKey _).mpr (List.mem_filter.mpr ⟨ha, hdial⟩))
  obtain ⟨b, hb, hsame⟩ := List.mem_map.mp hidentity
  exact ⟨b, hb, CandidateAddr.familyRank_of_dialIdentity hsame⟩

/-- A candidate behind IPv6 leaves one of its family or of a better one,
behind IPv6 too, in the dial order. -/
theorem exists_fallback [LawfulIpText] {addresses : List CandidateAddr} {a : CandidateAddr}
    (ha : a ∈ addresses) (hdial : a.kind.isDialable = true) (hfamily : a.familyRank ≠ 0) :
    ∃ b ∈ dialCandidates addresses, b.familyRank ≠ 0 ∧ b.familyRank ≤ a.familyRank := by
  obtain ⟨c, hc, hsame⟩ := exists_endpoint ha hdial
  have hbehind : (!c.isIpv6Literal) = true :=
    CandidateAddr.not_isIpv6Literal_iff.mpr (hsame ▸ hfamily)
  have hsome : ((endpoints addresses).find? fun a => !a.isIpv6Literal).isSome := by
    rw [List.find?_isSome]
    exact ⟨c, hc, hbehind⟩
  obtain ⟨b, hb⟩ := Option.isSome_iff_exists.mp hsome
  have hle : b.familyThenKindRank ≤ c.familyThenKindRank :=
    find_le (endpoints_sorted addresses) hb hc hbehind
  have hnot := List.find?_some hb
  exact ⟨b, find_mem_reserve _ hb, CandidateAddr.not_isIpv6Literal_iff.mp hnot,
    hsame ▸ CandidateAddr.familyRank_le hle⟩

/-- The dial order has a candidate behind IPv6 exactly when the list has
one that can be dialed. -/
theorem exists_fallback_iff [LawfulIpText] {addresses : List CandidateAddr} :
    (∃ a ∈ dialCandidates addresses, !a.isIpv6Literal) ↔
      ∃ a ∈ addresses, a.kind.isDialable ∧ !a.isIpv6Literal := by
  constructor
  · rintro ⟨a, ha, hlit⟩
    obtain ⟨hin, hdial⟩ := mem_endpoints ((reserveFallbackSlotAndCap_sublist _).subset ha)
    exact ⟨a, hin, hdial, hlit⟩
  · rintro ⟨a, ha, hdial, hlit⟩
    obtain ⟨b, hb, hbehind, -⟩ :=
      exists_fallback ha hdial (CandidateAddr.not_isIpv6Literal_iff.mp hlit)
    exact ⟨b, hb, CandidateAddr.not_isIpv6Literal_iff.mpr hbehind⟩

/-- What a dialer may rely on: candidates of the list, none of them a
relay, in order and each endpoint once, as many as there are endpoints up
to the cap, and with a fallback, an IPv4 one if there is one. -/
structure DialContract (addresses out : List CandidateAddr) : Prop where
  subset : out ⊆ addresses
  dialable : ∀ a ∈ out, a.kind ≠ .relay
  distinct : (out.map CandidateAddr.dialIdentity).Nodup
  sorted : out.Pairwise fun a b => a.familyThenKindRank ≤ b.familyThenKindRank
  length : out.length = min maxDialCandidates
    ((addresses.filter fun a => a.kind.isDialable).map CandidateAddr.dialIdentity).toFinset.card
  fallback : (∃ a ∈ addresses, a.kind.isDialable ∧ !a.isIpv6Literal) →
    ∃ a ∈ out, !a.isIpv6Literal
  ipv4 : (∃ a ∈ addresses, a.kind.isDialable ∧ a.isIpv4Literal) → ∃ a ∈ out, a.isIpv4Literal

/-- **The contract of the dial order**, on any list in any order. -/
theorem dialCandidates_contract [LawfulIpText] (addresses : List CandidateAddr) :
    DialContract addresses (dialCandidates addresses) := by
  have hkept : (dialCandidates addresses).Sublist (endpoints addresses) :=
    reserveFallbackSlotAndCap_sublist _
  constructor
  case subset =>
    intro a ha
    exact (mem_endpoints (hkept.subset ha)).1
  case dialable =>
    intro a ha
    exact isDialable_iff.mp (mem_endpoints (hkept.subset ha)).2
  case distinct =>
    exact (nodup_keepFirst _ _ _).sublist (hkept.map _)
  case sorted =>
    exact (endpoints_sorted addresses).sublist hkept
  case length =>
    rw [dialCandidates_eq, length_reserve, length_endpoints]
  case fallback =>
    exact exists_fallback_iff.mpr
  case ipv4 =>
    rintro ⟨a, ha, hdial, hlit⟩
    have hfamily : a.familyRank = 1 := by simpa [CandidateAddr.isIpv4Literal] using hlit
    obtain ⟨b, hb, hbehind, hle⟩ := exists_fallback ha hdial (by omega)
    refine ⟨b, hb, ?_⟩
    rw [CandidateAddr.isIpv4Literal, decide_eq_true_iff]
    omega

/-! ## §2 Behind the address cap -/

theorem dialCandidates_ne_nil_iff [LawfulIpText] {addresses : List CandidateAddr} :
    dialCandidates addresses ≠ [] ↔ ∃ a ∈ addresses, a.kind.isDialable = true := by
  constructor
  · intro h
    obtain ⟨a, ha⟩ := List.exists_mem_of_ne_nil _ h
    exact ⟨a, mem_endpoints ((reserveFallbackSlotAndCap_sublist _).subset ha)⟩
  · rintro ⟨a, ha, hdial⟩
    obtain ⟨b, hb, -⟩ := exists_endpoint ha hdial
    have hpos : 0 < (endpoints addresses).length := List.length_pos_of_mem hb
    rw [ne_eq, ← List.length_eq_zero_iff, dialCandidates_eq, length_reserve]
    simp only [maxDialCandidates]
    omega

end Contract

/-- How many of the candidates that fit rank before `a`. -/
def outranking (given : List CandidateAddr) (a : CandidateAddr) : Nat :=
  rank CandidateAddr.familyThenKindRank (given.filter CandidateAddr.hostFits) a.familyThenKindRank

/-- What the rank decides survives the address cap iff a candidate with
it has fewer than eight before it. -/
theorem exists_mem_sortAndCap_iff {P : CandidateAddr → Prop}
    (hP : ∀ a b : CandidateAddr, a.familyThenKindRank = b.familyThenKindRank → P a → P b)
    (given : List CandidateAddr) :
    (∃ a ∈ sortAndCapAddresses given, P a) ↔
      ∃ a ∈ given, a.hostFits ∧ P a ∧ outranking given a < maxAddressesPerRecord := by
  rw [sortAndCapAddresses, sortAddressesIpv6First]
  rw [exists_mem_take_sortByKey_iff hP]
  constructor
  · rintro ⟨a, ha, hPa, hrank⟩
    obtain ⟨hin, hfits⟩ := List.mem_filter.mp ha
    exact ⟨a, hin, hfits, hPa, hrank⟩
  · rintro ⟨a, hin, hfits, hPa, hrank⟩
    exact ⟨a, List.mem_filter.mpr ⟨hin, hfits⟩, hPa, hrank⟩

/-- If a candidate that fits meets `P`, one does that fewer than eight
rank before. -/
def Uncrowded (P : CandidateAddr → Bool) (given : List CandidateAddr) : Prop :=
  (∃ a ∈ given, a.hostFits ∧ P a) →
    ∃ a ∈ given, a.hostFits ∧ P a ∧ outranking given a < maxAddressesPerRecord

instance (P : CandidateAddr → Bool) (given : List CandidateAddr) : Decidable (Uncrowded P given) :=
  inferInstanceAs (Decidable (_ → _))

/-- The ways a list of candidates is stored. -/
inductive Ingress where
  | record (contentKey : Key) (provider : PeerId) (expiresAt : Nat)
  | contact (peerId : PeerId)
  | decoded

/-- The list a record or contact holds that `given` went into. -/
def Ingress.stored (given : List CandidateAddr) : Ingress → List CandidateAddr
  | .record contentKey provider expiresAt =>
    (ProviderRecord.new contentKey provider given expiresAt).addresses
  | .contact peerId => (Contact.new peerId given).addresses
  | .decoded => deserializeCappedAddresses given

theorem Ingress.stored_eq (given : List CandidateAddr) (i : Ingress) :
    i.stored given = sortAndCapAddresses given := by
  cases i <;> rfl

/-- What was reachable stays reachable, and so does what was reachable
behind IPv6. -/
structure KeepsReachable [IpText] (given stored : List CandidateAddr) : Prop where
  dialable : (∃ a ∈ given, a.hostFits ∧ a.kind.isDialable) → dialCandidates stored ≠ []
  fallback : (∃ a ∈ given, a.hostFits ∧ (a.kind.isDialable && !a.isIpv6Literal)) →
    ∃ a ∈ dialCandidates stored, !a.isIpv6Literal

/-- **What the address cap costs.** A stored list can be dialed, and
behind IPv6, as the list it was made of could, exactly when neither tier
is crowded out. -/
theorem keepsReachable_iff [IpText] [LawfulIpText] (i : Ingress) (given : List CandidateAddr) :
    KeepsReachable given (i.stored given) ↔
      Uncrowded (fun a => a.kind.isDialable) given ∧
        Uncrowded (fun a => a.kind.isDialable && !a.isIpv6Literal) given := by
  have hkind : ∀ a b : CandidateAddr, a.familyThenKindRank = b.familyThenKindRank →
      a.kind.isDialable = true → b.kind.isDialable = true := by
    intro a b h hdial
    rwa [← CandidateAddr.kind_eq h]
  have htier : ∀ a b : CandidateAddr, a.familyThenKindRank = b.familyThenKindRank →
      (a.kind.isDialable && !a.isIpv6Literal) = true →
        (b.kind.isDialable && !b.isIpv6Literal) = true := by
    intro a b h hdial
    rwa [CandidateAddr.isIpv6Literal, ← CandidateAddr.kind_eq h, ← CandidateAddr.familyRank_eq h]
  have hfallback : ∀ stored : List CandidateAddr,
      (∃ a ∈ dialCandidates stored, (!a.isIpv6Literal) = true) ↔
        ∃ a ∈ stored, (a.kind.isDialable && !a.isIpv6Literal) = true := by
    intro stored
    rw [exists_fallback_iff]
    simp only [Bool.and_eq_true]
  rw [Ingress.stored_eq]
  constructor
  · intro h
    constructor
    · intro hgiven
      exact (exists_mem_sortAndCap_iff hkind given).mp
        (dialCandidates_ne_nil_iff.mp (h.dialable hgiven))
    · intro hgiven
      exact (exists_mem_sortAndCap_iff htier given).mp ((hfallback _).mp (h.fallback hgiven))
  · rintro ⟨hdialable, hbehind⟩
    constructor
    case dialable =>
      intro hgiven
      exact dialCandidates_ne_nil_iff.mpr
        ((exists_mem_sortAndCap_iff hkind given).mpr (hdialable hgiven))
    case fallback =>
      intro hgiven
      exact (hfallback _).mpr ((exists_mem_sortAndCap_iff htier given).mpr (hbehind hgiven))

end Dialing

section Samples

/-- Some hosts and what they parse to, the text of an address before its
other spellings. -/
def hostTable : List (String × IpAddr) :=
  [("2001:db8::1", .v6 0x20010db8000000000000000000000001),
   ("2001:DB8::1", .v6 0x20010db8000000000000000000000001),
   ("2001:db8::2", .v6 0x20010db8000000000000000000000002),
   ("2001:db8::3", .v6 0x20010db8000000000000000000000003),
   ("2001:db8::4", .v6 0x20010db8000000000000000000000004),
   ("203.0.113.7", .v4 0xcb007107),
   ("::ffff:203.0.113.7", .v6 0xffffcb007107)]

/-- The hosts of the table are the literals. -/
local instance tableDeps : Deps :=
  { hexDeps fun _ => List.Vector.replicate 32 0 with
    parseIp := fun host => hostTable.lookup host
    familyOf := fun ip =>
      match ip.canonical with
      | .v4 _ => .v4
      | .v6 _ => .v6 }

local instance tableText : IpText where
  ipText ip := ((hostTable.find? fun e => e.2 = ip).map Prod.fst).getD ""

local instance lawful_table : LawfulIpText where
  parseIp_ipText host ip h := by
    obtain ⟨front, behind, htable, -⟩ := List.lookup_eq_some_iff.mp h
    have hin : (host, ip) ∈ hostTable := by
      rw [htable]
      exact List.mem_append_right _ List.mem_cons_self
    have hall : hostTable.all fun e =>
        Deps.parseIp (IpText.ipText e.2.canonical) = some e.2.canonical := by decide +kernel
    simpa using List.all_eq_true.mp hall _ hin
  familyOf_v4_iff ip := by
    show (match ip.canonical with | .v4 _ => Family.v4 | .v6 _ => Family.v6) = .v4 ↔ _
    cases ip.canonical <;> simp

/-- Five endpoints in seven spellings, the fallback last in the order. -/
def dualStack : List CandidateAddr :=
  [.relayMarker, .direct "::ffff:203.0.113.7" 9444, .direct "203.0.113.7" 9444,
   .direct "2001:DB8::1" 9444, .direct "2001:db8::1" 9444, .direct "2001:db8::2" 9444,
   .direct "2001:db8::3" 9444, .direct "2001:db8::4" 9444]

theorem dualStack_contract :
    dialCandidates dualStack =
        [.direct "2001:DB8::1" 9444, .direct "2001:db8::2" 9444, .direct "2001:db8::3" 9444,
         .direct "::ffff:203.0.113.7" 9444] ∧
      DialContract dualStack (dialCandidates dualStack) :=
  ⟨by decide +kernel, dialCandidates_contract dualStack⟩

/-- Eight candidates crowd out none. -/
theorem dualStack_reachable :
    KeepsReachable dualStack (Ingress.decoded.stored dualStack) :=
  (keepsReachable_iff .decoded dualStack).mpr (by decide +kernel)

/-- The address `203.0.113.7` behind eight IPv6 candidates of a kind. -/
def crowded (kind : AddressKind) : List CandidateAddr :=
  List.replicate 8 { host := "2001:db8::1", port := 9444, kind } ++ [.direct "203.0.113.7" 9444]

/-- Eight IPv6 relay entries crowd out the only address that can be
dialed, eight direct ones the only fallback. -/
theorem crowded_unreachable :
    ¬KeepsReachable (crowded .relay) (Ingress.decoded.stored (crowded .relay)) ∧
      ¬KeepsReachable (crowded .direct) (Ingress.decoded.stored (crowded .direct)) := by
  constructor
  · intro h
    refine h.dialable ⟨.direct "203.0.113.7" 9444, ?_⟩ ?_
    · decide +kernel
    · decide +kernel
  · intro h
    obtain ⟨a, ha, hlit⟩ := h.fallback (by decide +kernel)
    have hnone : ¬∃ a ∈ dialCandidates (Ingress.decoded.stored (crowded .direct)),
        (!a.isIpv6Literal) = true := by decide +kernel
    exact hnone ⟨a, ha, hlit⟩

end Samples

end DigDht.Record
