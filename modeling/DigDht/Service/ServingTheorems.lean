/-
DigDht.Service.ServingTheorems — the size of what a node serves.

A run of inbound requests from authenticated callers, at the default
configuration. The caps bound the NUMBER of everything an answer holds:
20 records for a key, 20 contacts, 8 addresses each, 253 bytes of UTF-8
to a host. JSON writes up to six bytes for one, and no cap counts those.
A contact list fits all the same (`find_node_fits`); an answer to
`find_providers` holds twice as much, and fits as long as no address list
brings more than 5997 escaped bytes of hosts (`answers_fit`). §3 is the
run of eleven callers that does not.
-/
import DigDht.Service.FindProvidersTheorems
import DigDht.Service.ServiceTheorems
import DigDht.Wire.FrameTheorems

namespace DigDht.Service

open Keyspace Record Routing Lookup Store Wire Content Runs

/-- A request and the authenticated caller it came from. -/
structure Inbound where
  now : Nat
  caller : Contact
  request : DhtRequest

section Serving

variable [Deps]

namespace Inbound

/-- The caller's id is canonical; an announced content key is hex. -/
structure WellFormed (x : Inbound) : Prop where
  caller : x.caller.Canonical
  contentKey : ∀ r, x.request = .addProvider r → (hex64ToBytes r.contentKey).isSome

/-- What survives the cap of the address lists of the request has at most
`budget` bytes of hosts in each. -/
structure Fits (budget : Nat) (x : Inbound) : Prop where
  caller : hostBytes (sortAndCapAddresses x.caller.addresses) ≤ budget
  record : ∀ r, x.request = .addProvider r → hostBytes (sortAndCapAddresses r.addresses) ≤ budget

theorem fits_max (x : Inbound) : x.Fits maxHostBytes :=
  ⟨hostBytes_sortAndCap_le_max _, fun _ _ => hostBytes_sortAndCap_le_max _⟩

end Inbound

namespace DhtService

def serve (svc : DhtService) (x : Inbound) : DhtService × Option DhtResponse :=
  svc.handleRequestFrom x.now (some x.caller) x.request

def serveState (svc : DhtService) (x : Inbound) : DhtService :=
  (svc.serve x).1

/-- Serving is the machine's step on an inbound request. -/
theorem serveState_eq_stepState (svc : DhtService) (x : Inbound) (world : World) :
    svc.serveState x =
      stepState svc (.at x.now (.handleRequestFrom (some x.caller) x.request), world) := rfl

/-! ## §1 What a node holds -/

/-- The table and the store of a default node hold capped entries with at
most `budget` bytes of hosts each. -/
structure Compact (budget : Nat) (svc : DhtService) : Prop where
  k : svc.routing.k = 20
  contacts : ∀ c ∈ svc.routing.contacts, SlimContact budget c
  wellFormed : svc.providers.WellFormed
  withinCaps : svc.providers.WithinCaps
  limits : svc.providers.limits = .default
  records : ∀ k x e, svc.providers.entry k x = some e → SlimRecord budget e.record

omit [Deps] in
theorem compact_new (budget : Nat) (localId : PeerId) (addresses : List CandidateAddr) :
    (new localId addresses .default).Compact budget where
  k := rfl
  contacts := by simp [new]
  wellFormed := ProviderStore.wellFormed_withLimits _
  withinCaps := ProviderStore.withinCaps_withLimits _
  limits := rfl
  records := by simp [new, ProviderStore.withLimits, ProviderStore.entry]

theorem isSome_of_canonical [PeerIdTextIsHex] {c : Contact} (h : c.Canonical) :
    (hex64ToBytes c.peerId).isSome := by
  obtain ⟨p, hp⟩ := h
  rw [hp, PeerIdTextIsHex.toHex_eq, hex64ToBytes_toHex64]
  rfl

theorem Compact.insert {budget : Nat} {svc : DhtService} (h : svc.Compact budget) {c : Contact}
    (hc : SlimContact budget c) :
    { svc with routing := (svc.routing.insert c).1 }.Compact budget := by
  refine ⟨?_, ?_, h.wellFormed, h.withinCaps, h.limits, h.records⟩
  · exact (k_step svc.routing (.insert c)).trans h.k
  · intro d hd
    have hstep : d ∈ (Routing.step svc.routing (.insert c)).contacts := hd
    rcases mem_step hstep with hold | hnew
    · exact h.contacts d hold
    · cases hnew
      exact hc

omit [Deps] in
theorem Compact.put {budget : Nat} {svc : DhtService} (h : svc.Compact budget)
    {r : ProviderRecord} (hr : SlimRecord budget r) (now : Nat) :
    { svc with providers := (svc.providers.putAt r now).1 }.Compact budget := by
  have hmax : 1 ≤ svc.providers.limits.maxProvidersPerKey := by
    rw [h.limits]
    decide
  refine ⟨h.k, h.contacts, ProviderStore.wellFormed_step h.wellFormed (.putAt r now),
    ProviderStore.withinCaps_step h.wellFormed h.withinCaps hmax (.putAt r now),
    (ProviderStore.limits_step svc.providers (.putAt r now)).trans h.limits, fun k x e he => ?_⟩
  have hstep : (Store.step svc.providers (.putAt r now)).entry k x = some e := he
  rcases ProviderStore.entry_step_cases hstep with ⟨hold, -⟩ |
    ⟨_, q, now', hop, -, -, -, rfl, -⟩ | ⟨q, now', hop, -, -, -, rfl, -⟩
  · exact h.records k x e hold
  · cases hop
    exact hr
  · cases hop
    exact hr

/-- Learning a caller: the table moves by one insert, if at all. -/
theorem compact_learnCaller [PeerIdTextIsHex] {budget : Nat} {svc svc' : DhtService}
    (h : svc.Compact budget) {x : Inbound} (hx : x.WellFormed) (hfits : x.Fits budget)
    (hlearn : svc.learnCaller (some x.caller) = some svc') : svc'.Compact budget := by
  have hcaller : SlimContact budget x.caller.capped :=
    ⟨isSome_of_canonical hx.caller, slim_sortAndCap hfits.caller⟩
  have hinsert := h.insert hcaller
  unfold learnCaller at hlearn
  simp only at hlearn
  split at hlearn
  · cases hlearn
    exact h
  · split at hlearn
    · cases hlearn
    · rename_i routing outcome _ heq
      cases hlearn
      rwa [heq] at hinsert

theorem slim_clampedRecord [PeerIdTextIsHex] {budget : Nat} (node : NodeProfile) {x : Inbound}
    (hx : x.WellFormed) (hfits : x.Fits budget) {r : ProviderRecord}
    (hrequest : x.request = .addProvider r) (hown : r.providerPeerId = x.caller.peerId)
    (now : Nat) : SlimRecord budget (node.clampedRecord r now) where
  contentKey := hx.contentKey r hrequest
  providerPeerId := by
    show (hex64ToBytes r.providerPeerId).isSome
    rw [hown]
    exact isSome_of_canonical hx.caller
  addresses := slim_sortAndCap (hfits.record r hrequest)
  expiresAt := le_trans (min_le_right _ _) (min_le_right _ _)
  pointer := fun coinId hcoin => (Option.filter_eq_some_iff.mp hcoin).2

theorem compact_admitVerified [PeerIdTextIsHex] {budget : Nat} {svc : DhtService}
    (h : svc.Compact budget) {r : ProviderRecord} {now : Nat}
    (hr : SlimRecord budget (svc.clampedRecord r now)) :
    (svc.admitVerifiedRecord r now).1.Compact budget := by
  have hput := h.put hr now
  unfold admitVerifiedRecord
  simp only
  split
  · rename_i pid _ _
    have hcontact : SlimContact budget (Contact.new pid (svc.clampedRecord r now).addresses) := by
      refine ⟨isSome_of_canonical ⟨pid, rfl⟩, slim_sortAndCap ?_⟩
      exact le_trans (hostBytes_sortAndCap_le _) hr.addresses.hosts
    have hinsert := hput.insert hcontact
    split <;> rename_i heq <;> rwa [heq] at hinsert
  · exact hput

theorem compact_serve [PeerIdTextIsHex] {budget : Nat} {svc : DhtService} (h : svc.Compact budget)
    {x : Inbound} (hx : x.WellFormed) (hfits : x.Fits budget) :
    (svc.serveState x).Compact budget := by
  unfold serveState serve handleRequestFrom
  cases hlearn : svc.learnCaller (some x.caller) with
  | none => exact h
  | some svc' =>
    have hlearned := compact_learnCaller h hx hfits hlearn
    rcases svc'.answer_fst x.now (some x.caller.peerId) x.request with hsame |
      ⟨r, hrequest, hown, hadmitted⟩
    · simp only [Option.map_some, hsame]
      exact hlearned
    · simp only [Option.map_some, hadmitted]
      have hid : x.caller.peerId = r.providerPeerId := by simpa [namesAnother] using hown
      exact compact_admitVerified hlearned (slim_clampedRecord _ hx hfits hrequest hid.symm x.now)

/-! ## §2 What a node answers -/

theorem Compact.closest {budget : Nat} {svc : DhtService} (h : svc.Compact budget) (key : Key) :
    (svc.routing.closest key).length ≤ 20 ∧
      ∀ c ∈ svc.routing.closest key, SlimContact budget c := by
  refine ⟨?_, fun c hc => h.contacts c (RoutingTable.mem_of_mem_closest hc)⟩
  rw [← h.k]
  exact svc.routing.length_closest_le key

omit [Deps] in
theorem Compact.get {budget : Nat} {svc : DhtService} (h : svc.Compact budget) (key : String)
    (now : Nat) :
    (svc.providers.get key now).length ≤ 20 ∧
      ∀ r ∈ svc.providers.get key now, SlimRecord budget r := by
  constructor
  · have hmax : 1 ≤ svc.providers.limits.maxProvidersPerKey := by
      rw [h.limits]
      decide
    have hbounded := (ProviderStore.withinCaps_iff_bounded hmax).mp h.withinCaps
    have hsize := ProviderStore.size_providersOf_le hbounded key
    rw [h.limits] at hsize
    exact le_trans (svc.providers.length_get_le key now) hsize
  · intro r hr
    obtain ⟨x, e, he, rfl, -⟩ := ProviderStore.mem_get hr
    exact h.records key x e he

theorem length_answer_le {budget : Nat} {svc : DhtService} (h : svc.Compact budget) (now : Nat)
    (caller : Option String) (request : DhtRequest) {response : DhtResponse}
    (hanswer : (svc.answer now caller request).2 = some response) :
    response.body.length ≤ 22225 + 40 * budget := by
  -- An answer without records and contacts is a few bytes.
  have hshort : ∀ {n : Nat}, n ≤ 22225 → n ≤ 22225 + 40 * budget :=
    fun hn => le_trans hn (Nat.le_add_right _ _)
  cases request with
  | ping nonce =>
    cases hanswer
    exact hshort (le_trans (length_pong_le nonce) (by decide))
  | findNode target =>
    simp only [answer] at hanswer
    split at hanswer <;> cases hanswer
    · exact hshort (by decide +kernel)
    · obtain ⟨hlen, hslim⟩ := h.closest _
      exact le_trans (length_nodes_le hlen hslim) (by omega)
  | findProviders contentKey =>
    simp only [answer] at hanswer
    split at hanswer <;> cases hanswer
    · exact hshort (by decide +kernel)
    · obtain ⟨hrecords, hr⟩ := h.get _ now
      obtain ⟨hcloser, hc⟩ := h.closest _
      exact length_providers_le hrecords hcloser hr hc
  | addProvider record =>
    simp only [answer] at hanswer
    split at hanswer
    · cases hanswer
      exact hshort (by decide +kernel)
    · split at hanswer <;> cases hanswer
      all_goals exact hshort (by decide +kernel)

/-- A request that is answered is answered after its caller was learnt. -/
theorem answer_of_serve {svc : DhtService} {x : Inbound} {response : DhtResponse}
    (hserved : (svc.serve x).2 = some response) :
    ∃ svc', svc.learnCaller (some x.caller) = some svc' ∧
      (svc'.answer x.now (some x.caller.peerId) x.request).2 = some response := by
  unfold serve handleRequestFrom at hserved
  cases hlearn : svc.learnCaller (some x.caller) with
  | none =>
    rw [hlearn] at hserved
    cases hserved
  | some svc' =>
    rw [hlearn] at hserved
    exact ⟨svc', rfl, hserved⟩

/-- A contact list is answered with the table's nearest contacts. -/
theorem closest_of_answer {svc : DhtService} {now : Nat} {caller : Option String}
    {request : DhtRequest} {contacts : List Contact}
    (h : (svc.answer now caller request).2 = some (.nodes contacts)) :
    ∃ key, contacts = svc.routing.closest key := by
  cases request with
  | ping nonce => cases h
  | findNode target =>
    simp only [answer] at h
    split at h <;> cases h
    exact ⟨_, rfl⟩
  | findProviders contentKey =>
    simp only [answer] at h
    split at h <;> cases h
  | addProvider record =>
    simp only [answer] at h
    split at h
    · cases h
    · split at h <;> cases h

theorem length_served_le [PeerIdTextIsHex] {budget : Nat} {svc : DhtService}
    (h : svc.Compact budget) {x : Inbound} (hx : x.WellFormed) (hfits : x.Fits budget)
    {response : DhtResponse} (hserved : (svc.serve x).2 = some response) :
    response.body.length ≤ 22225 + 40 * budget := by
  obtain ⟨svc', hlearn, hanswer⟩ := answer_of_serve hserved
  exact length_answer_le (compact_learnCaller h hx hfits hlearn) _ _ _ hanswer

/-- **Answers fit into a frame** in every run of well-formed requests
whose address lists stay within the budget: no querier refuses one as too
large. -/
theorem answers_fit [PeerIdTextIsHex] (localId : PeerId) (addresses : List CandidateAddr)
    (run : List Inbound) (hrun : ∀ x ∈ run, x.WellFormed) (hfits : ∀ x ∈ run, x.Fits hostBudget) :
    EachStep serveState
      (fun svc x => ∀ response, (svc.serve x).2 = some response →
        response.body.length ≤ maxFramedBody ∧
          ∀ fromSlice : List UInt8 → Option DhtResponse,
            decodeFramed fromSlice response.encode ≠ .error .tooLarge)
      (new localId addresses .default) run := by
  refine eachStep_of_invariant (I := Compact hostBudget)
    (fun svc x hx h => compact_serve h (hrun x hx) (hfits x hx)) ?_ (compact_new _ _ _)
  intro svc x hx h response hserved
  have hlen : response.body.length ≤ maxFramedBody :=
    le_trans (length_served_le h (hrun x hx) (hfits x hx) hserved) (by decide)
  refine ⟨hlen, ?_⟩
  intro fromSlice hlarge
  have hsmall : response.body.length < 2 ^ 32 := lt_of_le_of_lt hlen (by decide)
  exact absurd hlen (Nat.not_le.mpr ((decodeFramed_encodeFramed_iff fromSlice hsmall).mp hlarge))

/-- A `find_node` answer needs no budget: the caps alone keep it inside a
frame. -/
theorem find_node_fits [PeerIdTextIsHex] (localId : PeerId) (addresses : List CandidateAddr)
    (run : List Inbound) (hrun : ∀ x ∈ run, x.WellFormed) :
    EachStep serveState
      (fun svc x => ∀ contacts, (svc.serve x).2 = some (.nodes contacts) →
        (DhtResponse.nodes contacts).body.length ≤ maxFramedBody)
      (new localId addresses .default) run := by
  refine eachStep_of_invariant (I := Compact maxHostBytes)
    (fun svc x hx h => compact_serve h (hrun x hx) x.fits_max) ?_ (compact_new _ _ _)
  intro svc x hx h contacts hserved
  obtain ⟨svc', hlearn, hanswer⟩ := answer_of_serve hserved
  obtain ⟨key, rfl⟩ := closest_of_answer hanswer
  obtain ⟨hlen, hslim⟩ := (compact_learnCaller h (hrun x hx) x.fits_max hlearn).closest key
  exact le_trans (length_nodes_le hlen hslim) (by decide)

end DhtService

end Serving

/-! ## §3 Eleven callers -/

section Samples

attribute [local instance] sampleDeps

/-- A peer that announces itself for the sample content at `addresses`. -/
def announcement (first : UInt8) (addresses : List CandidateAddr) : Inbound where
  now := 100
  caller := sampleContact first
  request := .addProvider { sampleRecord first 7300 with addresses }

/-- Peer 1 asks for the sample content. -/
def question : Inbound where
  now := 100
  caller := sampleContact 1
  request := .findProviders sampleContent.toKey.toHex

theorem wellFormed_announcement (first : UInt8) (addresses : List CandidateAddr) :
    (announcement first addresses).WellFormed := by
  refine ⟨⟨samplePeer first, rfl⟩, ?_⟩
  intro r hr
  cases hr
  show (hex64ToBytes sampleContent.toKey.toHex).isSome
  rw [Key.toHex_eq, hex64ToBytes_toHex64]
  rfl

theorem wellFormed_question : question.WellFormed :=
  ⟨⟨samplePeer 1, rfl⟩, fun r hr => by cases hr⟩

/-- A host of 253 control characters: 1518 bytes of JSON. -/
def controlHost : String :=
  String.ofList (List.replicate 253 (Char.ofNat 1))

def hostileRun : List Inbound :=
  (List.range 11).map fun i =>
    announcement (128 + UInt8.ofNat i) (List.replicate 8 (.direct controlHost 1))

theorem wellFormed_hostileRun : ∀ x ∈ hostileRun, x.WellFormed := by
  intro x hx
  obtain ⟨i, -, rfl⟩ := List.mem_map.mp hx
  exact wellFormed_announcement _ _

/-- Ordinary hosts, and two of control characters among them. -/
theorem answers_fit_mixed :
    EachStep DhtService.serveState
      (fun svc x => ∀ response, (svc.serve x).2 = some response →
        response.body.length ≤ maxFramedBody ∧
          ∀ fromSlice : List UInt8 → Option DhtResponse,
            decodeFramed fromSlice response.encode ≠ .error .tooLarge)
      (.new (samplePeer 9) [] .default)
      [announcement 128 [.direct "203.0.113.7" 9444],
        announcement 129 [.direct controlHost 1, .direct controlHost 2], question] :=
  DhtService.answers_fit (samplePeer 9) [] _
    (by
      intro x hx
      rcases List.mem_cons.mp hx with rfl | hx
      · exact wellFormed_announcement _ _
      · rcases List.mem_pair.mp hx with rfl | rfl
        · exact wellFormed_announcement _ _
        · exact wellFormed_question)
    (by
      intro x hx
      rcases List.mem_cons.mp hx with rfl | hx
      · exact ⟨by decide +kernel, fun r hr => by cases hr; decide +kernel⟩
      · rcases List.mem_pair.mp hx with rfl | rfl
        · exact ⟨by decide +kernel, fun r hr => by cases hr; decide +kernel⟩
        · exact ⟨by decide +kernel, fun r hr => by cases hr⟩)

/-- The hosts of a providers answer. -/
def servedHosts : DhtResponse → Nat
  | .providers records closer =>
    (records.map fun r => hostBytes r.addresses).sum +
      (closer.map fun c => hostBytes c.addresses).sum
  | _ => 0

/-- Eleven callers announce eight such hosts each; the answer for their
content is then refused by everybody who asks. -/
theorem answer_too_large :
    let attacked := exec DhtService.serveState (.new (samplePeer 9) [] .default) hostileRun
    (∀ x ∈ hostileRun ++ [question], x.WellFormed) ∧
      ∃ response, (attacked.serve question).2 = some response ∧
        maxFramedBody < response.body.length ∧
        ∀ fromSlice : List UInt8 → Option DhtResponse,
          decodeFramed fromSlice response.encode = .error .tooLarge := by
  intro attacked
  have hhosts : ((attacked.serve question).2.map servedHosts) = some (22 * maxHostBytes) := by
    decide +kernel
  have hcompact : attacked.Compact maxHostBytes :=
    exec_invariant_mem
      (fun svc x hx h => DhtService.compact_serve h (wellFormed_hostileRun x hx) x.fits_max)
      (DhtService.compact_new _ _ _)
  obtain ⟨response, hserved, hsum⟩ := Option.map_eq_some_iff.mp hhosts
  refine ⟨?_, response, hserved, ?_⟩
  · intro x hx
    rcases List.mem_append.mp hx with hx | hx
    · exact wellFormed_hostileRun x hx
    · rw [List.mem_singleton.mp hx]
      exact wellFormed_question
  · have hsmall : response.body.length < 2 ^ 32 :=
      lt_of_le_of_lt
        (DhtService.length_served_le hcompact wellFormed_question question.fits_max hserved)
        (by decide)
    have hlarge : maxFramedBody < response.body.length := by
      cases response with
      | providers records closer =>
        have hlower := hostBytes_le_length_providers records closer
        exact lt_of_lt_of_le (by decide) (le_trans hsum.ge hlower)
      | _ => cases hsum
    exact ⟨hlarge, fun fromSlice => (decodeFramed_encodeFramed_iff fromSlice hsmall).mpr hlarge⟩

end Samples

end DigDht.Service
