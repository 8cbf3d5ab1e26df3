/-
DigDht.Service.IsolationTheorems — what one caller can do to the others.

A request from an authenticated caller may move three things: the routing
table (the caller is learnt, and again when its record is stored), and
under one content key the caller's own record and the record evicted for
it. An answer that reports an error has changed nothing but the table,
and there by the caller's own contact at most.
-/
import DigDht.Service.NonInterference
import DigDht.Store.AdmissionTheorems

namespace DigDht.Service

open Keyspace Record Routing Lookup Store Wire Content Runs

variable [Deps]

namespace DhtService

/-- Learning the caller inserts its capped contact, if anything. -/
theorem learnCaller_cases {svc svc' : DhtService} {c : Contact}
    (h : svc.learnCaller (some c) = some svc') :
    svc' = svc ∨ svc' = { svc with routing := (svc.routing.insert c.capped).1 } := by
  simp only [learnCaller] at h
  split at h
  · cases h
    exact Or.inl rfl
  · split at h
    · cases h
    · rename_i routing outcome _ heq
      cases h
      exact Or.inr (by rw [heq])

/-- A record that is turned away leaves the service as it was. -/
theorem admitVerifiedRecord_rejected {svc : DhtService} {record : ProviderRecord} {now : Nat}
    (h : (svc.admitVerifiedRecord record now).2 = some .rejectedOverCapacity) :
    (svc.admitVerifiedRecord record now).1 = svc := by
  unfold admitVerifiedRecord at h ⊢
  obtain ⟨e, -, hput⟩ | ⟨-, hput⟩ | ⟨ps, -, -, -, hput⟩ :=
    svc.providers.putAt_cases (svc.clampedRecord record now) now
  · simp only [hput] at h
    split at h
    · split at h <;> cases h
    · cases h
  · simp only [hput]
  · simp only [hput] at h
    split at h
    · split at h <;> cases h
    · cases h

/-- An answer that is an error changed nothing. -/
theorem answer_error {svc : DhtService} {now : Nat} {caller : Option String} {request : DhtRequest}
    {code : UInt32} {message : String}
    (h : (svc.answer now caller request).2 = some (.error code message)) :
    (svc.answer now caller request).1 = svc := by
  cases request with
  | ping nonce => rfl
  | findNode target =>
    simp only [answer]
    split <;> rfl
  | findProviders contentKey =>
    simp only [answer]
    split <;> rfl
  | addProvider record =>
    simp only [answer] at h ⊢
    split
    · rfl
    · rename_i hown
      rw [if_neg hown] at h
      have hrejected := @admitVerifiedRecord_rejected _ svc record now
      revert h hrejected
      cases svc.admitVerifiedRecord record now with
      | mk svc' outcome =>
        intro h hrejected
        rcases outcome with _ | (_ | _)
        · cases h
        · cases h
        · exact hrejected rfl

/-- Answering touches the authoritative store for the caller's own
record only, and the cache and the announced keys not at all. -/
theorem answer_frame (svc : DhtService) (hs : svc.providers.WellFormed) (now : Nat) (x : String)
    (request : DhtRequest) :
    let svc' := (svc.answer now (some x) request).1
    svc'.discovered = svc.discovered ∧
      svc'.providers.announced = svc.providers.announced ∧
      (svc'.providers = svc.providers ∨ ∃ record, request = .addProvider record ∧
        record.providerPeerId = x ∧
        EvictsFor (svc.clampedRecord record now) svc.providers svc'.providers) := by
  intro svc'
  rcases svc.answer_fst now (some x) request with h | ⟨record, hrequest, hown, h⟩
  · simp only [svc', h]
    exact ⟨trivial, trivial, Or.inl trivial⟩
  · obtain ⟨hside, hcache⟩ := admitVerifiedRecord_fst svc record now
    have hstore : svc'.providers = (svc.providers.putAt (svc.clampedRecord record now) now).1 := by
      simp only [svc', h]
      exact congrArg AssertionSide.providers hside
    refine ⟨by rw [← hcache, ← h], by simp [hstore], Or.inr ⟨record, hrequest, ?_, ?_⟩⟩
    · have hsame : x = record.providerPeerId := by simpa [namesAnother] using hown
      exact hsame.symm
    · rw [hstore]
      exact evictsFor_putAt hs _ now

/-- **Peer isolation.** Whatever a caller asks of a reachable service:
its answer leaves the cache and the announced keys as they were, adds or
alters no record of another provider, and removes one at most, under the
key of an AddProvider that was full without the caller. An error leaves
the store as it was, and the table up to the caller's own contact. -/
theorem serving_isolated (localId : PeerId) (addresses : List CandidateAddr) (config : DhtConfig)
    (before : List (Input × World)) (now : Nat) (c : Contact) (request : DhtRequest) :
    let svc := exec stepState (new localId addresses config) before
    let served := svc.handleRequestFrom now (some c) request
    let removed := othersOf c.peerId svc.providers \ othersOf c.peerId served.1.providers
    served.1.discovered = svc.discovered ∧
      served.1.providers.announced = svc.providers.announced ∧
      othersOf c.peerId served.1.providers ⊆ othersOf c.peerId svc.providers ∧
      removed.Subsingleton ∧
      (∀ p ∈ removed, ∃ record, request = .addProvider record ∧ p.1 = record.contentKey ∧
        config.providerStoreLimits.maxProvidersPerKey ≤ FMap.size (svc.providers.providersOf p.1) ∧
        svc.providers.entry p.1 c.peerId = none) ∧
      ∀ code message, served.2 = some (.error code message) →
        served.1.providers = svc.providers ∧
          (served.1.routing = svc.routing ∨
            served.1.routing = (svc.routing.insert c.capped).1) := by
  intro svc served removed
  have hvalid : svc.Valid := valid_exec localId addresses config before
  have hlimits : svc.providers.limits = config.providerStoreLimits :=
    limits_exec localId addresses config before
  simp only [removed, served, handleRequestFrom]
  cases hlearn : svc.learnCaller (some c) with
  | none =>
    simp only [Set.sdiff_self]
    refine ⟨trivial, trivial, Set.Subset.rfl, Set.subsingleton_empty, ?_, ?_⟩
    · intro p hp
      exact absurd hp (Set.notMem_empty p)
    · intro code message herror
      cases herror
  | some learnt =>
    obtain ⟨routing, rfl⟩ := rerouted_learnCaller hlearn
    obtain ⟨hcache, hannounced, hstore⟩ :=
      answer_frame { svc with routing } hvalid.providers now c.peerId request
    have hframe : ∀ code message,
        (answer { svc with routing } now (some c.peerId) request).2 = some (.error code message) →
          (answer { svc with routing } now (some c.peerId) request).1 = { svc with routing } :=
      fun code message => answer_error
    simp only [Option.map_some]
    refine ⟨hcache, hannounced, ?_⟩
    rw [← and_assoc, ← and_assoc]
    refine ⟨?_, ?_⟩
    · rcases hstore with hsame | ⟨record, rfl, hid, hevicts⟩
      · rw [hsame]
        simp only [Set.sdiff_self]
        refine ⟨⟨Set.Subset.rfl, Set.subsingleton_empty⟩, ?_⟩
        intro p hp
        exact absurd hp (Set.notMem_empty p)
      · have hclamped : (NodeProfile.clampedRecord svc.toNodeProfile record now).providerPeerId =
            c.peerId := hid
        obtain ⟨hsub, hone, hfull⟩ := hevicts
        rw [hclamped] at hsub hone hfull
        refine ⟨⟨hsub, hone⟩, ?_⟩
        intro p hp
        obtain ⟨hk, hcap, hnew⟩ := hfull p hp
        refine ⟨record, rfl, hk, ?_⟩
        rw [hk, ← hlimits]
        exact ⟨hcap, hnew⟩
    · intro code message herror
      rw [hframe code message herror]
      refine ⟨rfl, ?_⟩
      rcases learnCaller_cases hlearn with h | h
      · exact Or.inl (congrArg DhtService.routing h)
      · exact Or.inr (congrArg DhtService.routing h)

end DhtService

end DigDht.Service
