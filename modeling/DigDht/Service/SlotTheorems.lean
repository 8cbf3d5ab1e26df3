/-
DigDht.Service.SlotTheorems — what an admission costs, on every path to a
store.

A put of a new pair costs a live provider its place in one case: the
newcomer is dead, and every record of its full key is live. The cache
never meets it, since it puts live records only; `add_provider` and an
ingest can, with a record that had expired before it arrived.
-/
import DigDht.Service.FindProvidersTheorems
import DigDht.Service.NonInterference
import DigDht.Store.SweepTheorems

namespace DigDht.Service

open Keyspace Record Routing Lookup Store Wire Content Runs

namespace DhtService

variable [Deps]

theorem live_of_mem_cacheOps {svc : DhtService} {input : Input} {world : World}
    {r : ProviderRecord} {now : Nat} (h : StoreOp.putAt r now ∈ svc.cacheOps input world) :
    r.isExpired now = false := by
  obtain ⟨content, -, hput⟩ := mem_cacheOps_putAt h
  obtain ⟨q, -, entry, hentry, heq⟩ := mem_cachePuts hput
  cases heq
  obtain ⟨-, -, -, -, hlive⟩ := cacheEntry_spec hentry
  exact hlive

/-- **Admission and discoverability.** In every reachable store a put of
a new pair keeps the live records of its key exactly when the record is
live or the store has a slot for it. The puts an operation makes into the
authoritative store are such puts, and so are its puts into the cache,
which meet the condition. -/
theorem slots_kept_iff :
    (∀ (limits : ProviderStoreLimits) (ops : List StoreOp) (r : ProviderRecord) (now : Nat),
      let s := exec Store.step (ProviderStore.withLimits limits) ops
      s.entry r.contentKey r.providerPeerId = none →
        (s.SlotsKept r now ↔ r.isExpired now = false ∨ s.CostsNoLive r now)) ∧
    ∀ (localId : PeerId) (addresses : List CandidateAddr) (config : DhtConfig)
      (run : List (Input × World)) (input : Input) (world : World) (before : List StoreOp)
      (r : ProviderRecord) (now : Nat) (after : List StoreOp),
      let svc := exec stepState (new localId addresses config) run
      (svc.assertionSide.storeOps input = before ++ .putAt r now :: after →
        let s := exec Store.step svc.providers before
        s.entry r.contentKey r.providerPeerId = none →
          (s.SlotsKept r now ↔ r.isExpired now = false ∨ s.CostsNoLive r now)) ∧
      (svc.cacheOps input world = before ++ .putAt r now :: after →
        let s := exec Store.step svc.discovered before
        s.entry r.contentKey r.providerPeerId = none → s.SlotsKept r now) := by
  constructor
  · intro limits ops r now s hnew
    exact ProviderStore.slotsKept_iff
      (ProviderStore.wellFormed_exec (ProviderStore.wellFormed_withLimits limits) ops) hnew
  · intro localId addresses config run input world before r now after svc
    have hvalid : svc.Valid := valid_exec localId addresses config run
    constructor
    · intro _ s hnew
      exact ProviderStore.slotsKept_iff
        (ProviderStore.wellFormed_exec hvalid.providers before) hnew
    · intro hops s hnew
      have hmem : StoreOp.putAt r now ∈ svc.cacheOps input world := by
        rw [hops]
        exact List.mem_append_right _ List.mem_cons_self
      exact (ProviderStore.slotsKept_iff
        (ProviderStore.wellFormed_exec hvalid.discovered before) hnew).mpr
        (Or.inl (live_of_mem_cacheOps hmem))

end DhtService

section Samples

attribute [local instance] sampleDeps

/-- A live newcomer takes the place of one live record of a full key. -/
theorem slots_kept_by_live :
    let s := exec Store.step (ProviderStore.withLimits ⟨1, 10⟩)
      [.putAt (sampleRecord 50 200) 100]
    s.SlotsKept (sampleRecord 51 300) 100 :=
  (DhtService.slots_kept_iff.1 ⟨1, 10⟩ _ (sampleRecord 51 300) 100 (by decide +kernel)).mpr
    (Or.inl (by decide +kernel))

/-- A record that had expired before it was announced empties a full key:
its holder is gone, and nobody is named in its place. -/
theorem dead_record_takes_slot :
    let serve (first : UInt8) (expiresAt : Nat) : Input × World :=
      (Input.at 100 (.handleRequestFrom (some (sampleContact first))
        (.addProvider (sampleRecord first expiresAt))), tellingWorld (.nodes []))
    let config := { DhtConfig.default with providerStoreLimits := ⟨1, 10⟩ }
    let svc := exec stepState (DhtService.new (samplePeer 9) [] config) [serve 50 200]
    let key := sampleContent.toKey.toHex
    let s := exec Store.step (ProviderStore.withLimits ⟨1, 10⟩)
      [.putAt (sampleRecord 50 200) 100]
    svc.providers.get key 100 = [sampleRecord 50 200] ∧
      (stepState svc (serve 51 60)).providers.get key 100 = [] ∧
      s.entry (sampleRecord 51 60).contentKey (sampleRecord 51 60).providerPeerId = none ∧
      ¬s.SlotsKept (sampleRecord 51 60) 100 := by
  refine ⟨by decide +kernel, by decide +kernel, by decide +kernel, ?_⟩
  intro h
  exact absurd h.count (by decide +kernel)

end Samples

end DigDht.Service
