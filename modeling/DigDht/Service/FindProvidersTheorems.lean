/-
DigDht.Service.FindProvidersTheorems — what `find_providers` makes of the
answers it gets.

Three passes decide whether a record reaches the caller. The fold of the
lookup keeps the FIRST record for each provider, dead or alive, and may
end the walk on it; the merge then drops what has expired and keeps one
record for each provider, the local store first
(`DigDht.Service.MergeTheorems`). §1 is the list `find_providers` returns:
a provider is in it exactly when the local store has a live record for
it, or when the first record folded for it is still live at the merge
(`returned_iff`). §2 says what that does to the early exit, §3 what it
does to a live answer that arrives second.
-/
import DigDht.Lookup.IterativeFindTheorems
import DigDht.Service.MergeTheorems
import DigDht.Store.ProviderStoreTheorems

namespace DigDht.Service

open Keyspace Record Routing Lookup Store Wire Content

/-! ## §1 The returned list -/

namespace DhtService

variable [Deps]

/-- `find_providers` runs a lookup: no live cache entry, and somebody to
ask. -/
def Searches (svc : DhtService) (now : Nat) (content : ContentId) : Prop :=
  svc.discovered.get content.toKey.toHex now = [] ∧ svc.seedContacts content.toKey ≠ []

/-- The lookup `find_providers` runs. -/
def providerWalk (svc : DhtService) (swarm : Swarm) (content : ContentId) : Walk × Exit :=
  svc.runLookup swarm content.toKey (svc.seedContacts content.toKey) true

/-- Every on-key record that lookup folded, in the order it did. -/
def folded (svc : DhtService) (swarm : Swarm) (content : ContentId) : List ProviderRecord :=
  (svc.lookupParams content.toKey true).collected (svc.providerWalk swarm content).1.trace

/-- The local store has a record for `x`, live when it was read and live
at the merge. -/
def LocalLive (svc : DhtService) (clock : Nat → Nat) (content : ContentId) (x : String) : Prop :=
  ∃ r ∈ svc.providers.get content.toKey.toHex (clock 0),
    r.providerPeerId = x ∧ r.isExpired (clock 2) = false

/-- The first record folded for `x` is live at the merge. -/
def FirstLive (svc : DhtService) (clock : Nat → Nat) (swarm : Swarm) (content : ContentId)
    (x : String) : Prop :=
  ((svc.folded swarm content).find? fun r => r.providerPeerId = x).any
    (fun r => !r.isExpired (clock 2)) = true

instance (svc : DhtService) (now : Nat) (content : ContentId) :
    Decidable (svc.Searches now content) :=
  inferInstanceAs (Decidable (_ ∧ _))

instance (svc : DhtService) (clock : Nat → Nat) (content : ContentId) (x : String) :
    Decidable (svc.LocalLive clock content x) :=
  inferInstanceAs (Decidable (∃ _ ∈ _, _ ∧ _))

instance (svc : DhtService) (clock : Nat → Nat) (swarm : Swarm) (content : ContentId)
    (x : String) : Decidable (svc.FirstLive clock swarm content x) :=
  inferInstanceAs (Decidable (_ = true))

theorem providerWalk_inv (svc : DhtService) (swarm : Swarm) (content : ContentId) :
    (svc.lookupParams content.toKey true).WalkInv (swarm.peers content.toKey.toHex)
      (svc.providerWalk swarm content).1 :=
  ((svc.lookupParams content.toKey true).walk_spec _ _).1

/-- The map of the walk holds the first record folded for each provider. -/
theorem lookup_providerWalk (svc : DhtService) (swarm : Swarm) (content : ContentId)
    (x : String) :
    (svc.providerWalk swarm content).1.providers.lookup x =
      (svc.folded swarm content).find? fun r => r.providerPeerId = x :=
  (svc.providerWalk_inv swarm content).lookup_providers x

/-- The list returned by a `find_providers` that runs a lookup. -/
theorem findProviders_returned {svc : DhtService} {clock : Nat → Nat} (swarm : Swarm)
    {content : ContentId} (h : svc.Searches (clock 0) content) :
    (svc.findProviders clock swarm content).2.1 =
      mergeDedupByProvider (svc.providers.get content.toKey.toHex (clock 0))
        ((FMap.values (svc.providerWalk swarm content).1.providers).map
          ProviderRecord.normalized) (clock 2) := by
  unfold findProviders
  simp only [ne_eq, h.1, not_true_eq_false, if_false, h.2]
  rfl

/-- The walk's records for `x`, after normalization, are the first one
folded. -/
theorem exists_normalized_iff (svc : DhtService) (swarm : Swarm) (content : ContentId)
    (now : Nat) (x : String) :
    (∃ r ∈ (FMap.values (svc.providerWalk swarm content).1.providers).map
          ProviderRecord.normalized, r.providerPeerId = x ∧ r.isExpired now = false) ↔
      ((svc.folded swarm content).find? fun r => r.providerPeerId = x).any
        (fun r => !r.isExpired now) = true := by
  rw [Option.any_eq_true]
  constructor
  · intro h
    obtain ⟨r, hr, hx, hlive⟩ := h
    obtain ⟨q, hq, rfl⟩ := List.mem_map.mp hr
    obtain ⟨y, hy⟩ := FMap.mem_values_iff.mp hq
    rw [lookup_providerWalk] at hy
    have hid : q.providerPeerId = y := by simpa using List.find?_some hy
    have hxy : y = x := hid.symm.trans hx
    subst hxy
    exact ⟨q, hy, by simpa using hlive⟩
  · intro h
    obtain ⟨q, hq, hlive⟩ := h
    have hid : q.providerPeerId = x := by simpa using List.find?_some hq
    rw [← lookup_providerWalk] at hq
    exact ⟨q.normalized, List.mem_map_of_mem (FMap.mem_values_iff.mpr ⟨x, hq⟩), hid,
      by simpa using hlive⟩

/-- **Who is returned.** A lookup returns a live record for `x` exactly
when the local store has one or the first record folded for `x` is one. -/
theorem returned_iff {svc : DhtService} {clock : Nat → Nat} (swarm : Swarm)
    {content : ContentId} (h : svc.Searches (clock 0) content) (x : String) :
    (∃ r ∈ (svc.findProviders clock swarm content).2.1,
        r.providerPeerId = x ∧ r.isExpired (clock 2) = false) ↔
      svc.LocalLive clock content x ∨ svc.FirstLive clock swarm content x := by
  rw [findProviders_returned swarm h, exists_mem_merge_iff, exists_normalized_iff]
  rfl

/-- The providers named in the list a lookup returns. -/
theorem searched_returned_iff {svc : DhtService} {clock : Nat → Nat} (swarm : Swarm)
    {content : ContentId} (h : svc.Searches (clock 0) content) (x : String) :
    (∃ r ∈ (svc.findProviders clock swarm content).2.1, r.providerPeerId = x) ↔
      svc.LocalLive clock content x ∨ svc.FirstLive clock swarm content x := by
  rw [← returned_iff swarm h]
  constructor
  · intro hnamed
    obtain ⟨r, hr, hx⟩ := hnamed
    have hmerged := hr
    rw [findProviders_returned swarm h] at hmerged
    exact ⟨r, hr, hx, (mem_dedupLive hmerged).2⟩
  · intro hnamed
    obtain ⟨r, hr, hx, -⟩ := hnamed
    exact ⟨r, hr, hx⟩

/-- Without a lookup, the providers named are those of the two stores. -/
theorem unsearched_returned_iff {svc : DhtService} {clock : Nat → Nat} (swarm : Swarm)
    {content : ContentId} (h : ¬svc.Searches (clock 0) content) (x : String) :
    (∃ r ∈ (svc.findProviders clock swarm content).2.1, r.providerPeerId = x) ↔
      ∃ r ∈ svc.providers.get content.toKey.toHex (clock 0) ++
        svc.discovered.get content.toKey.toHex (clock 0), r.providerPeerId = x := by
  have hlive : ∀ (s : ProviderStore), ∀ r ∈ s.get content.toKey.toHex (clock 0),
      r.isExpired (clock 0) = false := by
    intro s r hr
    obtain ⟨-, -, -, -, hr⟩ := ProviderStore.mem_get hr
    exact hr
  unfold findProviders
  by_cases hcached : svc.discovered.get content.toKey.toHex (clock 0) = []
  · have hseeds : svc.seedContacts content.toKey = [] := by
      by_contra hseeds
      exact h ⟨hcached, hseeds⟩
    simp [hcached, hseeds]
  · simp only [ne_eq, hcached, not_false_eq_true, if_true]
    constructor
    · intro hnamed
      obtain ⟨r, hr, hx⟩ := hnamed
      exact ⟨r, (mem_dedupLive hr).1, hx⟩
    · intro hnamed
      obtain ⟨r, hr, rfl⟩ := hnamed
      have hnow : r.isExpired (clock 0) = false := by
        rcases List.mem_append.mp hr with hr | hr
        · exact hlive _ r hr
        · exact hlive _ r hr
      exact exists_mem_dedupLive hr hnow (Finset.notMem_empty _)

/-! ## §2 The early exit -/

theorem searches_of_stopped {svc : DhtService} {now : Nat} {swarm : Swarm} {content : ContentId}
    (hcache : svc.discovered.get content.toKey.toHex now = [])
    (hexit : (svc.providerWalk swarm content).2 = .stoppedOnProviders) :
    svc.Searches now content := by
  refine ⟨hcache, ?_⟩
  intro hseeds
  rw [providerWalk, runLookup, hseeds, LookupParams.walk_nil] at hexit
  cases hexit

/-- **When the early exit found a usable holder.** A lookup ended by its
first providers returns a live record for one of them if and only if, for
one of them, the local store has a live record or the first record folded
is live at the merge. -/
theorem early_exit_usable_iff (svc : DhtService) (clock : Nat → Nat) (swarm : Swarm)
    (content : ContentId)
    (hcache : svc.discovered.get content.toKey.toHex (clock 0) = [])
    (hexit : (svc.providerWalk swarm content).2 = .stoppedOnProviders) :
    (∃ r ∈ (svc.findProviders clock swarm content).2.1, r.isExpired (clock 2) = false ∧
        ∃ q ∈ svc.folded swarm content, q.providerPeerId = r.providerPeerId) ↔
      ∃ q ∈ svc.folded swarm content,
        svc.LocalLive clock content q.providerPeerId ∨
          svc.FirstLive clock swarm content q.providerPeerId := by
  have hsearch := searches_of_stopped hcache hexit
  constructor
  · intro h
    obtain ⟨r, hr, hlive, q, hq, hid⟩ := h
    exact ⟨q, hq, (returned_iff swarm hsearch _).mp ⟨r, hr, hid.symm, hlive⟩⟩
  · intro h
    obtain ⟨q, hq, husable⟩ := h
    obtain ⟨r, hr, hid, hlive⟩ := (returned_iff swarm hsearch _).mpr husable
    exact ⟨r, hr, hlive, q, hq, hid.symm⟩

/-! ## §3 Live answers -/

/-- Some peer's answer has a record for `x`, within the response ceiling
and live at the merge. -/
def AnsweredLive (svc : DhtService) (clock : Nat → Nat) (swarm : Swarm) (content : ContentId)
    (x : String) : Prop :=
  ∃ c outcome, (c, some outcome) ∈ (svc.providerWalk swarm content).1.trace ∧
    ∃ r ∈ outcome.providers.take (svc.lookupParams content.toKey true).providerCap,
      r.providerPeerId = x ∧ r.isExpired (clock 2) = false

/-- What was answered was folded. -/
theorem exists_folded_of_answeredLive {svc : DhtService} {clock : Nat → Nat} {swarm : Swarm}
    {content : ContentId} {x : String} (h : svc.AnsweredLive clock swarm content x) :
    ∃ r ∈ svc.folded swarm content, r.providerPeerId = x ∧ r.isExpired (clock 2) = false := by
  obtain ⟨c, outcome, hmem, r, hr, hx⟩ := h
  exact ⟨r, List.mem_flatMap.mpr ⟨_, hmem, hr⟩, hx⟩

/-- **When no live answer is lost.** A lookup returns a live record for
every provider it got a live answer about if and only if, for every such
provider, the local store has a live record or no dead record for it was
folded first. -/
theorem live_answers_returned_iff (svc : DhtService) (clock : Nat → Nat) (swarm : Swarm)
    (content : ContentId) (hsearch : svc.Searches (clock 0) content) :
    (∀ x, svc.AnsweredLive clock swarm content x →
        ∃ r ∈ (svc.findProviders clock swarm content).2.1,
          r.providerPeerId = x ∧ r.isExpired (clock 2) = false) ↔
      ∀ x, svc.AnsweredLive clock swarm content x →
        svc.LocalLive clock content x ∨ svc.FirstLive clock swarm content x :=
  forall₂_congr fun x _ => returned_iff swarm hsearch x

end DhtService

/-! ## §4 Four lookups -/

section Samples

def sampleContent : ContentId :=
  .store (List.Vector.replicate 32 7)

/-- The SHA-256 digest of `sampleContent.canonicalBytes`. -/
def sampleDigest : Bytes32 :=
  ⟨[211, 144, 124, 2, 71, 231, 233, 139, 114, 51, 138, 0, 216, 114, 68, 36,
    141, 247, 30, 179, 19, 88, 157, 162, 144, 212, 90, 223, 186, 68, 230, 210], rfl⟩

/-- Identities as their own hex text, and the one digest taken below. -/
@[reducible] def sampleDeps : Deps :=
  hexDeps fun bytes =>
    if bytes = sampleContent.canonicalBytes then sampleDigest else List.Vector.replicate 32 0

attribute [local instance] sampleDeps

/-- The identity whose first byte is `first`. -/
def samplePeer (first : UInt8) : PeerId :=
  ⟨first ::ᵥ List.Vector.replicate 31 0⟩

def sampleContact (first : UInt8) : Contact :=
  Contact.new (samplePeer first) []

/-- A record for the sample content. -/
def sampleRecord (first : UInt8) (expiresAt : Nat) : ProviderRecord :=
  ProviderRecord.new sampleContent.toKey (samplePeer first) [] expiresAt

/-- A node that knows two peers, 211 the nearer one to the content. -/
def sampleService : DhtService :=
  let svc := DhtService.new (samplePeer 9) [] DhtConfig.default
  { svc with routing := (insertAll svc.routing [sampleContact 211, sampleContact 1]).1 }

/-- A swarm in which the two peers answer as given. -/
def sampleSwarm (answer211 answer1 : DhtResponse) : Swarm where
  rpc _ c _ :=
    if c.peerId = (sampleContact 211).peerId then some answer211
    else if c.peerId = (sampleContact 1).peerId then some answer1
    else none
  arrival _ batch := batch
  arrival_perm _ := List.Perm.refl

/-- A live record ends the walk, and is returned. -/
theorem early_exit_on_live :
    let swarm := sampleSwarm (.providers [sampleRecord 50 200] []) (.nodes [])
    ∃ r ∈ (sampleService.findProviders (fun _ => 100) swarm sampleContent).2.1,
      r.isExpired 100 = false ∧
        ∃ q ∈ sampleService.folded swarm sampleContent, q.providerPeerId = r.providerPeerId :=
  (DhtService.early_exit_usable_iff sampleService (fun _ => 100) _ sampleContent
    (by decide +kernel) (by decide +kernel)).mpr (by decide +kernel)

/-- An expired record ends the walk just the same: nothing is returned,
and the closer peer that came with it is never asked. -/
theorem early_exit_on_expired :
    let swarm := sampleSwarm (.providers [sampleRecord 50 60] [sampleContact 210]) (.nodes [])
    sampleService.routing.len = 2 ∧
      sampleService.discovered.get sampleContent.toKey.toHex 100 = [] ∧
      (sampleService.providerWalk swarm sampleContent).2 = .stoppedOnProviders ∧
      (∃ e ∈ (sampleService.providerWalk swarm sampleContent).1.shortlist, e.unasked = true) ∧
      ¬∃ r ∈ (sampleService.findProviders (fun _ => 100) swarm sampleContent).2.1,
        r.isExpired 100 = false ∧
          ∃ q ∈ sampleService.folded swarm sampleContent,
            q.providerPeerId = r.providerPeerId := by
  decide +kernel

/-- The live record arrives first, an expired one for the same provider
second: it is returned. -/
theorem live_answer_first :
    let swarm := sampleSwarm (.providers [sampleRecord 50 200] [])
      (.providers [sampleRecord 50 60] [])
    ∃ r ∈ (sampleService.findProviders (fun _ => 100) swarm sampleContent).2.1,
      r.providerPeerId = (sampleRecord 50 200).providerPeerId ∧ r.isExpired 100 = false := by
  intro swarm
  have hfolded : ∀ r ∈ sampleService.folded swarm sampleContent,
      r.providerPeerId = (sampleRecord 50 200).providerPeerId := by
    decide +kernel
  have hfirst : sampleService.FirstLive (fun _ => 100) swarm sampleContent
      (sampleRecord 50 200).providerPeerId := by
    decide +kernel
  have hanswered : sampleService.AnsweredLive (fun _ => 100) swarm sampleContent
      (sampleRecord 50 200).providerPeerId :=
    ⟨sampleContact 211, ⟨[], [sampleRecord 50 200]⟩, by decide +kernel, sampleRecord 50 200,
      by decide +kernel, rfl, by decide +kernel⟩
  refine (DhtService.live_answers_returned_iff sampleService (fun _ => 100) swarm sampleContent
    (by decide +kernel)).mpr (fun x h => ?_) _ hanswered
  obtain ⟨r, hr, rfl, -⟩ := DhtService.exists_folded_of_answeredLive h
  rw [hfolded r hr]
  exact Or.inr hfirst

/-- The expired record arrives first and the live one is lost. -/
theorem live_answer_second :
    let swarm := sampleSwarm (.providers [sampleRecord 50 60] [])
      (.providers [sampleRecord 50 200] [])
    sampleService.Searches 100 sampleContent ∧
      ¬∀ x, sampleService.AnsweredLive (fun _ => 100) swarm sampleContent x →
        ∃ r ∈ (sampleService.findProviders (fun _ => 100) swarm sampleContent).2.1,
          r.providerPeerId = x ∧ r.isExpired 100 = false := by
  intro swarm
  refine ⟨by decide +kernel, ?_⟩
  intro h
  have hanswered : sampleService.AnsweredLive (fun _ => 100) swarm sampleContent
      (sampleRecord 50 200).providerPeerId :=
    ⟨sampleContact 1, ⟨[], [sampleRecord 50 200]⟩, by decide +kernel, sampleRecord 50 200,
      by decide +kernel, rfl, by decide +kernel⟩
  obtain ⟨r, hr, -⟩ := h _ hanswered
  have hnone : (sampleService.findProviders (fun _ => 100) swarm sampleContent).2.1 = [] := by
    decide +kernel
  rw [hnone] at hr
  cases hr

end Samples

end DigDht.Service
