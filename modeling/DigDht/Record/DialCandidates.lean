/-
DigDht.Record.DialCandidates — the dial order of an address list
(`src/record.rs`).

`dialCandidates` filters, sorts, deduplicates by endpoint and caps. Each
of the four steps is a function of the source with a spec lemma here; the
cap is the only one with a branch, and what it keeps is said by
`reserveFallbackSlotAndCap_sublist` and `find_mem_reserve`.
-/
import DigDht.Record.Record

namespace DigDht.Record

open Keyspace Selection

/-- `MAX_DIAL_CANDIDATES`. -/
def maxDialCandidates : Nat := 4

/-- Everything but a bare relay marker. -/
def AddressKind.isDialable : AddressKind → Bool
  | .relay => false
  | _ => true

theorem isDialable_iff {kind : AddressKind} : kind.isDialable = true ↔ kind ≠ .relay := by
  cases kind <;> simp [AddressKind.isDialable]

def CandidateAddr.relayMarker : CandidateAddr :=
  { host := "", port := 0, kind := .relay }

section Dial

variable [Deps]

namespace CandidateAddr

def isIpv6Literal (a : CandidateAddr) : Bool :=
  a.familyRank = 0

/-- The endpoint a candidate names, for deduplication: the parsed address
in canonical form, the host text where it is no literal, and the port. -/
def dialIdentity [IpText] (a : CandidateAddr) : String × UInt16 :=
  let host := match Deps.parseIp a.host with
    | some (.v6 v6) => IpText.ipText (((toIpv4Mapped v6).map IpAddr.v4).getD (.v6 v6))
    | some ip => IpText.ipText ip
    | none => a.host
  (host, a.port)

end CandidateAddr

/-- Cut to `maxDialCandidates`. A cut that would leave IPv6 literals only
gives its last slot to the first other candidate. -/
def reserveFallbackSlotAndCap (candidates : List CandidateAddr) : List CandidateAddr :=
  if candidates.length ≤ maxDialCandidates then candidates
  else
    let keptExcludesEveryFallback :=
      (candidates.take maxDialCandidates).all CandidateAddr.isIpv6Literal
    let fallback :=
      if keptExcludesEveryFallback then candidates.find? fun a => !a.isIpv6Literal else none
    match fallback with
    | some fallback => candidates.take (maxDialCandidates - 1) ++ [fallback]
    | none => candidates.take maxDialCandidates

def dialCandidates [IpText] (addresses : List CandidateAddr) : List CandidateAddr :=
  let candidates := addresses.filter fun a => a.kind.isDialable
  let sorted := sortByKey CandidateAddr.familyThenKindRank candidates
  reserveFallbackSlotAndCap (keepFirst CandidateAddr.dialIdentity ∅ sorted)

def ProviderRecord.dialCandidates [IpText] (r : ProviderRecord) : List CandidateAddr :=
  Record.dialCandidates r.addresses

/-- `deserialize_capped_addresses`: what the decoder makes of the list it
reads. -/
def deserializeCappedAddresses (addresses : List CandidateAddr) : List CandidateAddr :=
  sortAndCapAddresses addresses

/-! ## Rank -/

namespace CandidateAddr

theorem familyRank_le {a b : CandidateAddr} (h : a.familyThenKindRank ≤ b.familyThenKindRank) :
    a.familyRank ≤ b.familyRank :=
  Prod.Lex.monotone_fst _ _ h

theorem familyRank_eq {a b : CandidateAddr} (h : a.familyThenKindRank = b.familyThenKindRank) :
    a.familyRank = b.familyRank :=
  congrArg (fun r => (ofLex r).1) h

theorem kind_eq {a b : CandidateAddr} (h : a.familyThenKindRank = b.familyThenKindRank) :
    a.kind = b.kind := by
  have hrank : a.kind.rank = b.kind.rank := congrArg (fun r => (ofLex r).2) h
  revert hrank
  cases a.kind <;> cases b.kind <;> simp [AddressKind.rank]

theorem not_isIpv6Literal_iff {a : CandidateAddr} :
    (!a.isIpv6Literal) = true ↔ a.familyRank ≠ 0 := by
  simp [isIpv6Literal]

/-! ## Identity -/

variable [IpText]

theorem dialIdentity_of_literal {a : CandidateAddr} {ip : IpAddr}
    (h : Deps.parseIp a.host = some ip) :
    a.dialIdentity = (IpText.ipText ip.canonical, a.port) := by
  unfold dialIdentity
  rw [h]
  cases ip <;> rfl

theorem dialIdentity_of_name {a : CandidateAddr} (h : Deps.parseIp a.host = none) :
    a.dialIdentity = (a.host, a.port) := by
  unfold dialIdentity
  rw [h]

/-- Candidates of one endpoint are of one family. -/
theorem familyRank_of_dialIdentity [LawfulIpText] {a b : CandidateAddr}
    (h : a.dialIdentity = b.dialIdentity) : a.familyRank = b.familyRank := by
  unfold familyRank
  cases ha : Deps.parseIp a.host with
  | none =>
    cases hb : Deps.parseIp b.host with
    | none => rfl
    | some ip =>
      -- The text of an address is no name.
      rw [dialIdentity_of_name ha, dialIdentity_of_literal hb] at h
      have htext : a.host = IpText.ipText ip.canonical := congrArg Prod.fst h
      rw [htext, LawfulIpText.parseIp_ipText b.host ip hb] at ha
      cases ha
  | some ip =>
    have hread := LawfulIpText.parseIp_ipText a.host ip ha
    cases hb : Deps.parseIp b.host with
    | none =>
      rw [dialIdentity_of_literal ha, dialIdentity_of_name hb] at h
      have htext : IpText.ipText ip.canonical = b.host := congrArg Prod.fst h
      rw [htext, hb] at hread
      cases hread
    | some ip' =>
      rw [dialIdentity_of_literal ha, dialIdentity_of_literal hb] at h
      have htext : IpText.ipText ip.canonical = IpText.ipText ip'.canonical :=
        congrArg Prod.fst h
      rw [htext, LawfulIpText.parseIp_ipText b.host ip' hb] at hread
      rw [Option.map_some, Option.map_some,
        familyOf_eq_of_canonical (Option.some.inj hread).symm]

end CandidateAddr

/-! ## Cap -/

section Cap

variable (l : List CandidateAddr)

theorem length_reserve : (reserveFallbackSlotAndCap l).length = min maxDialCandidates l.length := by
  unfold reserveFallbackSlotAndCap
  split
  case isTrue h => exact (Nat.min_eq_right h).symm
  case isFalse h =>
    dsimp only
    split
    · rw [List.length_append, List.length_take, List.length_singleton]
      simp only [maxDialCandidates] at h ⊢
      omega
    · exact List.length_take

/-- The cap keeps order and distinctness: it only leaves entries out. -/
theorem reserveFallbackSlotAndCap_sublist : (reserveFallbackSlotAndCap l).Sublist l := by
  unfold reserveFallbackSlotAndCap
  split
  · exact List.Sublist.refl l
  · dsimp only
    split
    case h_1 fallback hfallback =>
      -- The fallback is behind the cut, so behind what is kept.
      split at hfallback
      case isTrue hall =>
        have hbehind : fallback ∈ l.drop maxDialCandidates := by
          rw [← List.take_append_drop maxDialCandidates l, List.find?_append,
            Option.or_eq_some_iff] at hfallback
          rcases hfallback with hkept | ⟨-, hcut⟩
          · have hlit := List.all_eq_true.mp hall fallback (List.mem_of_find?_eq_some hkept)
            have hnot := List.find?_some hkept
            simp [hlit] at hnot
          · exact List.mem_of_find?_eq_some hcut
        have hkept : (l.take (maxDialCandidates - 1)).Sublist (l.take maxDialCandidates) :=
          (List.take_prefix_take_left (by decide)).sublist
        have hboth := hkept.append (List.singleton_sublist.mpr hbehind)
        rwa [List.take_append_drop] at hboth
      case isFalse => cases hfallback
    · exact List.take_sublist _ l

/-- The first candidate that is no IPv6 literal is always kept. -/
theorem find_mem_reserve {a : CandidateAddr}
    (h : l.find? (fun a => !a.isIpv6Literal) = some a) : a ∈ reserveFallbackSlotAndCap l := by
  unfold reserveFallbackSlotAndCap
  split
  · exact List.mem_of_find?_eq_some h
  · dsimp only
    cases hall : (l.take maxDialCandidates).all CandidateAddr.isIpv6Literal with
    | true =>
      rw [if_pos rfl, h]
      exact List.mem_append_right _ (List.mem_singleton.mpr rfl)
    | false =>
      rw [if_neg Bool.false_ne_true]
      obtain ⟨b, hb, hlit⟩ := List.all_eq_false.mp hall
      have hsome : ((l.take maxDialCandidates).find? fun a => !a.isIpv6Literal).isSome := by
        rw [List.find?_isSome]
        exact ⟨b, hb, by simpa using hlit⟩
      obtain ⟨c, hc⟩ := Option.isSome_iff_exists.mp hsome
      rw [← List.take_append_drop maxDialCandidates l, List.find?_append, hc] at h
      cases h
      exact List.mem_of_find?_eq_some hc

end Cap

end Dial

end DigDht.Record
