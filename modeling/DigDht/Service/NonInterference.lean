/-
DigDht.Service.NonInterference — nothing a peer answers reaches what this
node asserts.

Two runs of a service from one state, over the same operations, clocks
and key orders, with DIFFERENT worlds (every answer of the transport,
every random byte). Their authoritative stores, their served provider
lists and their snapshots agree step by step. That is the refinement of
`AssertionSide` read twice, since the specification sees no world. The
second half is about what leaves the node: an `AddProvider` it sends
carries a record it put into its own store in the same operation, and
that record names it (`sent_step`).
-/
import DigDht.Service.ServiceTheorems

namespace DigDht.Service

open Keyspace Record Routing Lookup Store Wire Content Runs

variable [Deps]

/-! ## §1 The records a node offers name it -/

theorem NodeProfile.announcedRecord_eq (node : NodeProfile) (content : ContentId)
    (coin : Option Bytes32) (now : Nat) :
    node.announcedRecord content coin now =
      node.republishedRecord (coin.map toHex64) content.toKey now := by
  cases coin <;> rfl

theorem NodeProfile.announcedRecord_names (node : NodeProfile) (content : ContentId)
    (coin : Option Bytes32) (now : Nat) :
    (node.announcedRecord content coin now).providerPeerId = node.selfId := by
  rw [announcedRecord_eq]
  rfl

theorem republishOps_names {a : AssertionSide} {clock : Nat → Nat} {i : Nat}
    {keys : List String} {r : ProviderRecord} {now : Nat}
    (h : StoreOp.putAt r now ∈ a.republishOps clock i keys) : r.providerPeerId = a.selfId := by
  obtain ⟨_, -, _, _, -, heq⟩ := DhtService.mem_republishOps h
  cases heq
  rfl

/-! ## §2 What is sent -/

namespace DhtService

omit [Deps] in
/-- A lookup sends no announcement. -/
theorem not_mem_lookupRequests {target : Key} {w : Walk} {c : Contact} {r : ProviderRecord} :
    (c, DhtRequest.addProvider r) ∉ lookupRequests target w := by
  simp [lookupRequests]

theorem mem_publish_sent {svc : DhtService} {swarm : Swarm} {target : Key}
    {record r : ProviderRecord} {c : Contact}
    (h : (c, DhtRequest.addProvider r) ∈ (svc.publish swarm target record).2.2) : r = record := by
  unfold publish at h
  split at h
  · cases h
  · rcases List.mem_append.mp h with h | h
    · exact absurd h not_mem_lookupRequests
    · obtain ⟨p, -, heq⟩ := List.mem_map.mp h
      cases heq
      rfl

theorem mem_republishFrom_sent {svc : DhtService} {clock : Nat → Nat} {swarms : Nat → Swarm}
    {i : Nat} {keys : List String} {r : ProviderRecord} {c : Contact}
    (h : (c, DhtRequest.addProvider r) ∈ (svc.republishFrom clock swarms i keys).2.2) :
    r ∈ (svc.republishFrom clock swarms i keys).2.1 := by
  induction keys generalizing svc i with
  | nil => cases h
  | cons hex rest ih =>
    unfold republishFrom at h ⊢
    cases hparse : parseKey hex with
    | none =>
      rw [hparse] at h
      exact ih h
    | some target =>
      rw [hparse] at h
      rcases List.mem_append.mp h with h | h
      · rw [mem_publish_sent h]
        exact List.mem_cons_self
      · exact List.mem_cons_of_mem _ (ih h)

theorem not_mem_refreshFrom_sent {svc : DhtService} {random : Nat → Bytes32}
    {swarms : Nat → Swarm} {i : Nat} {indices : List (Fin 256)} {r : ProviderRecord}
    {c : Contact} :
    (c, DhtRequest.addProvider r) ∉ (svc.refreshFrom random swarms i indices).2 := by
  induction indices generalizing svc i with
  | nil => simp [refreshFrom]
  | cons idx rest ih =>
    unfold refreshFrom
    rw [List.mem_append, not_or]
    refine ⟨?_, ih⟩
    cases (svc.searchAndAbsorb (swarms i) (svc.randomKeyInBucket idx (random i))).2 with
    | none => simp
    | some w => exact not_mem_lookupRequests

theorem not_mem_findProviders_sent {svc : DhtService} {clock : Nat → Nat} {swarm : Swarm}
    {content : ContentId} {r : ProviderRecord} {c : Contact} :
    (c, DhtRequest.addProvider r) ∉ (svc.findProviders clock swarm content).2.2 := by
  unfold findProviders
  simp only
  split
  · simp
  · split
    · simp
    · exact not_mem_lookupRequests

/-- Every announcement an operation sends is of a record the operation
put into its own store, and names this node. -/
theorem sent_step (svc : DhtService) (input : Input) (world : World) {c : Contact}
    {r : ProviderRecord}
    (h : (c, DhtRequest.addProvider r) ∈ (step svc input world).2.sent) :
    r ∈ (step svc input world).2.offered ∧ r.providerPeerId = svc.selfId ∧
      ∃ now, StoreOp.putAt r now ∈ svc.assertionSide.storeOps input := by
  obtain ⟨op, clock, order, hperm⟩ := input
  cases op with
  | bootstrap peers =>
    simp only [step, bootstrap] at h
    split at h
    · cases h
    · exact absurd h not_mem_lookupRequests
  | findNode peerId =>
    simp only [step, findNode] at h
    split at h
    · cases h
    · exact absurd h not_mem_lookupRequests
  | findProviders content => exact absurd h not_mem_findProviders_sent
  | holdersOf content => exact absurd h not_mem_findProviders_sent
  | refreshBuckets => exact absurd h not_mem_refreshFrom_sent
  | announceProviderWithCollateral content coin =>
    cases mem_publish_sent h
    exact ⟨List.mem_singleton.mpr rfl, svc.announcedRecord_names content coin (clock 0),
      clock 1, List.mem_cons_self⟩
  | republish =>
    have hoffered := mem_republishFrom_sent h
    obtain ⟨now, hput⟩ := (republishFrom_spec svc clock world.swarms 0 _).2.2 r hoffered
    exact ⟨hoffered, republishOps_names hput, now, hput⟩
  | ping peer =>
    cases List.mem_singleton.mp h
  | addPeer peerId addresses =>
    simp only [step] at h
    split at h <;> cases h
  | removePeer _ => cases h
  | cachedProviders _ => cases h
  | forgetDiscovered _ => cases h
  | withdrawProvider _ => cases h
  | ingestVerifiedProvider _ => cases h
  | removeProviderRecord _ _ => cases h
  | providerSnapshot _ => cases h
  | retractOwnProvider _ => cases h
  | gc => cases h
  | handleRequestFrom _ _ => cases h
  | knownClosest _ => cases h
  | routingLen => cases h

/-! ## §3 Two runs -/

theorem valid_exec (localId : PeerId) (addresses : List CandidateAddr) (config : DhtConfig)
    (run : List (Input × World)) : (exec stepState (new localId addresses config) run).Valid :=
  exec_invariant (Q := Valid) (fun _ x hs => valid_step hs x.1 x.2)
    (valid_new localId addresses config) run

theorem toNodeProfile_exec (localId : PeerId) (addresses : List CandidateAddr) (config : DhtConfig)
    (run : List (Input × World)) :
    (exec stepState (new localId addresses config) run).toNodeProfile =
      ⟨localId, addresses, config⟩ := by
  refine (exec_invariant
    (Q := fun svc : DhtService => svc.Valid ∧ svc.toNodeProfile = ⟨localId, addresses, config⟩) ?_
    ⟨valid_new localId addresses config, rfl⟩ run).2
  intro svc x h
  obtain ⟨hvalid, hprofile⟩ := h
  exact ⟨valid_step hvalid x.1 x.2, (toNodeProfile_step hvalid x.1 x.2).trans hprofile⟩

theorem localId_exec (localId : PeerId) (addresses : List CandidateAddr) (config : DhtConfig)
    (run : List (Input × World)) :
    (exec stepState (new localId addresses config) run).localId = localId :=
  congrArg NodeProfile.localId (toNodeProfile_exec localId addresses config run)

theorem config_exec (localId : PeerId) (addresses : List CandidateAddr) (config : DhtConfig)
    (run : List (Input × World)) :
    (exec stepState (new localId addresses config) run).config = config :=
  congrArg NodeProfile.config (toNodeProfile_exec localId addresses config run)

/-- The caps of the authoritative store are the configured ones. -/
theorem limits_exec (localId : PeerId) (addresses : List CandidateAddr) (config : DhtConfig)
    (run : List (Input × World)) :
    (exec stepState (new localId addresses config) run).providers.limits =
      config.providerStoreLimits := by
  refine (exec_invariant (Q := fun svc : DhtService => svc.Valid ∧
    svc.providers.limits = config.providerStoreLimits) ?_
    ⟨valid_new localId addresses config, rfl⟩ run).2
  intro svc x h
  obtain ⟨hvalid, hlimits⟩ := h
  refine ⟨valid_step hvalid x.1 x.2, ?_⟩
  rw [stepState, providers_step hvalid, ProviderStore.limits_exec, hlimits]

/-- **Hearsay non-interference.** From any reachable state: two runs over
the same operations agree on the authoritative store and on everything
the node asserts, whatever the transport answers in each; and every
announcement a step sends is of a record naming this node that the step
put into its own store. -/
theorem hearsay_noninterference (localId : PeerId) (addresses : List CandidateAddr)
    (config : DhtConfig) (before : List (Input × World)) :
    let s := exec stepState (new localId addresses config) before
    (∀ inputs : List (Input × World × World),
      (transcript step s (inputs.map fun x => (x.1, x.2.1))).map
          (fun a => (a.1.assertionSide, a.2.reply.asserted)) =
        (transcript step s (inputs.map fun x => (x.1, x.2.2))).map
          fun a => (a.1.assertionSide, a.2.reply.asserted)) ∧
    ∀ input world c r, (c, DhtRequest.addProvider r) ∈ (step s input world).2.sent →
      r ∈ (step s input world).2.offered ∧ r.providerPeerId = Deps.toHex localId ∧
        ∃ now, StoreOp.putAt r now ∈ s.assertionSide.storeOps input := by
  intro s
  have hs : s.Valid := valid_exec localId addresses config before
  constructor
  · intro inputs
    refine transcript_view_eq (Q := Valid) assertionSide (fun o : Output => o.reply.asserted)
      AssertionSide.next AssertionSide.asserts ?_ hs hs rfl inputs
    intro svc input world hsvc
    exact ⟨valid_step hsvc input world, assertionSide_step hsvc.routed input world⟩
  · intro input world c r h
    have hsent := sent_step s input world h
    rw [NodeProfile.selfId, localId_exec] at hsent
    exact hsent

end DhtService

end DigDht.Service
