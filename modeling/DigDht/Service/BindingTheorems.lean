/-
DigDht.Service.BindingTheorems — an answer counts for the question it was
asked.

`Swarm.onKey` is a transport with every record for another key deleted
from its answers. The query closure of a lookup drops these records
before anything else reads them, so a lookup meets the same peers over
both transports (`peers_onKey`): it asks the same contacts in the same
rounds and leaves the node in the same state. What is returned or cached
is for the key asked about, live when it was merged or written, and the
list names no provider twice (`answers_bound`).
-/
import DigDht.Lookup.RoundTheorems
import DigDht.Service.FindProvidersTheorems
import DigDht.Service.NonInterference

namespace DigDht.Service

open Keyspace Record Routing Lookup Store Wire Content Runs

/-- The response without the records for another key. -/
def onKeyOnly (contentKey : String) : DhtResponse → DhtResponse
  | .providers providers closer =>
    .providers (providers.filter fun r => r.contentKey = contentKey) closer
  | response => response

/-- The transport without these records. -/
def Swarm.onKey (swarm : Swarm) (contentKey : String) : Swarm where
  rpc asked contact request := (swarm.rpc asked contact request).map (onKeyOnly contentKey)
  arrival := swarm.arrival
  arrival_perm := swarm.arrival_perm

theorem queryOutcome_onKeyOnly (contentKey : String) (response : Option DhtResponse) :
    queryOutcome contentKey (response.map (onKeyOnly contentKey)) =
      queryOutcome contentKey response := by
  cases response with
  | none => rfl
  | some r => cases r <;> simp [onKeyOnly, queryOutcome]

/-- A lookup does not see the difference. -/
theorem Swarm.peers_onKey (swarm : Swarm) (contentKey : String) :
    (swarm.onKey contentKey).peers contentKey = swarm.peers contentKey := by
  simp only [Swarm.peers, Swarm.onKey, queryOutcome_onKeyOnly]

namespace DhtService

variable [Deps]

/-- The rounds of the lookup `find_providers` runs. -/
def providerRounds (svc : DhtService) (swarm : Swarm) (content : ContentId) :
    List (List Contact) :=
  (svc.lookupParams content.toKey true).rounds (swarm.peers content.toKey.toHex)
    (svc.seedContacts content.toKey)

theorem findProviders_onKey (svc : DhtService) (clock : Nat → Nat) (swarm : Swarm)
    (content : ContentId) :
    svc.findProviders clock (swarm.onKey content.toKey.toHex) content =
      svc.findProviders clock swarm content := by
  simp only [findProviders, runLookup, swarm.peers_onKey]

/-- The instant at which the returned list was put together: the last
clock reading of a lookup, the first one of a call that runs none. -/
def mergeInstant (svc : DhtService) (clock : Nat → Nat) (content : ContentId) : Nat :=
  if svc.Searches (clock 0) content then clock 2 else clock 0

omit [Deps] in
theorem contentKey_of_get {s : ProviderStore} (hs : s.WellFormed) {k : String} {now : Nat}
    {r : ProviderRecord} (h : r ∈ s.get k now) : r.contentKey = k := by
  obtain ⟨x, e, he, rfl, -⟩ := ProviderStore.mem_get h
  exact (hs.key_agrees k x e he).1

/-- Where a returned record comes from. -/
theorem mem_returned {svc : DhtService} {clock : Nat → Nat} {swarm : Swarm} {content : ContentId}
    {r : ProviderRecord} (h : r ∈ (svc.findProviders clock swarm content).2.1) :
    r.isExpired (svc.mergeInstant clock content) = false ∧
      (r ∈ svc.providers.get content.toKey.toHex (clock 0) ∨
        r ∈ svc.discovered.get content.toKey.toHex (clock 0) ∨
        ∃ q ∈ FMap.values (svc.providerWalk swarm content).1.providers, q.normalized = r) := by
  by_cases hsearch : svc.Searches (clock 0) content
  · rw [findProviders_returned swarm hsearch] at h
    rw [mergeInstant, if_pos hsearch]
    obtain ⟨hmem, hlive⟩ := mem_dedupLive h
    refine ⟨hlive, ?_⟩
    rcases List.mem_append.mp hmem with hmem | hmem
    · exact Or.inl hmem
    · exact Or.inr (Or.inr (List.mem_map.mp hmem))
  · rw [mergeInstant, if_neg hsearch]
    unfold findProviders at h
    by_cases hcached : svc.discovered.get content.toKey.toHex (clock 0) = []
    · have hseeds : svc.seedContacts content.toKey = [] := by
        by_contra hseeds
        exact hsearch ⟨hcached, hseeds⟩
      simp only [hcached, hseeds, ne_eq, not_true_eq_false, if_false, if_true] at h
      obtain ⟨-, -, -, -, hlive⟩ := ProviderStore.mem_get h
      exact ⟨hlive, Or.inl h⟩
    · simp only [ne_eq, hcached, not_false_eq_true, if_true] at h
      obtain ⟨hmem, hlive⟩ := mem_dedupLive h
      refine ⟨hlive, ?_⟩
      rcases List.mem_append.mp hmem with hmem | hmem
      · exact Or.inl hmem
      · exact Or.inr (Or.inl hmem)

/-- No provider is returned twice. -/
theorem nodup_returned {svc : DhtService} (h : svc.Valid) (clock : Nat → Nat) (swarm : Swarm)
    (content : ContentId) :
    ((svc.findProviders clock swarm content).2.1.map ProviderRecord.providerPeerId).Nodup := by
  unfold findProviders
  simp only
  split
  · exact nodup_dedupLive _ _ _
  · split
    · exact ProviderStore.nodup_get h.providers _ _
    · exact nodup_dedupLive _ _ _

theorem contentKey_of_returned {svc : DhtService} (h : svc.Valid) {clock : Nat → Nat}
    {swarm : Swarm} {content : ContentId} {r : ProviderRecord}
    (hr : r ∈ (svc.findProviders clock swarm content).2.1) :
    r.contentKey = content.toKey.toHex := by
  obtain ⟨-, hlocal | hcached | ⟨q, hq, rfl⟩⟩ := mem_returned hr
  · exact contentKey_of_get h.providers hlocal
  · exact contentKey_of_get h.discovered hcached
  · exact (mem_providers_runLookup (r := q) hq).2

/-- What `find_providers` caches. -/
theorem cached_spec (svc : DhtService) (clock : Nat → Nat) (swarm : Swarm) (content : ContentId)
    {k x : String} {e : ProviderEntry}
    (he : (svc.findProviders clock swarm content).1.discovered.entry k x = some e)
    (hnew : svc.discovered.entry k x ≠ some e) :
    k = content.toKey.toHex ∧ e.record.contentKey = content.toKey.toHex ∧
      e.record.isExpired (clock 1) = false := by
  rw [discovered_findProviders] at he
  rcases ProviderStore.entry_exec_cases he with hold | ⟨r, now, hput, hk, hrecord⟩
  · exact absurd hold hnew
  · obtain ⟨q, -, entry, hentry, heq⟩ := mem_cachePuts hput
    cases heq
    obtain ⟨hkey, -, -, -, hlive⟩ := cacheEntry_spec hentry
    rw [hrecord]
    exact ⟨hk.symm.trans hkey, hkey, hlive⟩

/-- **Answer-to-question binding.** In every reachable state, a transport
whose answers carry records for other keys and the one without them make
`find_providers` do the same: the same service afterwards, the same list,
the same requests in the same rounds. What is returned is for the key
asked about, live at the merge and of distinct providers; what is cached
is for that key and live when it is written. -/
theorem answers_bound (localId : PeerId) (addresses : List CandidateAddr) (config : DhtConfig)
    (before : List (Input × World)) (clock : Nat → Nat) (swarm : Swarm) (content : ContentId) :
    let svc := exec stepState (new localId addresses config) before
    let keyHex := content.toKey.toHex
    let found := svc.findProviders clock swarm content
    svc.findProviders clock (swarm.onKey keyHex) content = found ∧
      svc.providerRounds (swarm.onKey keyHex) content = svc.providerRounds swarm content ∧
      (∀ r ∈ found.2.1, r.contentKey = keyHex ∧
        r.isExpired (svc.mergeInstant clock content) = false) ∧
      (found.2.1.map ProviderRecord.providerPeerId).Nodup ∧
      ∀ k x e, found.1.discovered.entry k x = some e → svc.discovered.entry k x ≠ some e →
        k = keyHex ∧ e.record.contentKey = keyHex ∧ e.record.isExpired (clock 1) = false := by
  intro svc keyHex found
  have hvalid : svc.Valid := valid_exec localId addresses config before
  refine ⟨svc.findProviders_onKey clock swarm content, ?_, ?_,
    nodup_returned hvalid clock swarm content, ?_⟩
  · simp only [providerRounds, keyHex, swarm.peers_onKey]
  · intro r hr
    exact ⟨contentKey_of_returned hvalid hr, (mem_returned hr).1⟩
  · intro k x e he hnew
    exact svc.cached_spec clock swarm content he hnew

end DhtService

end DigDht.Service
