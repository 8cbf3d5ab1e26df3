/-
DigDht.Service.ServiceTheorems — what an operation can touch.

§1 is framing: each internal function of the service changes the one
component it is for. §2 reads every operation as store operations on the
two stores and table operations on the routing table. The authoritative
store follows the specification `AssertionSide.storeOps`
(`assertionSide_step`): the service refines its assertion side. What a
reply names is read off the state the same way (`replies_step`). §3 is
the invariant of a service in any state.
-/
import DigDht.Lookup.RoundTheorems
import DigDht.Routing.RoutingTableTheorems
import DigDht.Service.AssertionSide
import DigDht.Store.ProviderStoreTheorems

namespace DigDht.Service

open Keyspace Record Routing Lookup Store Wire Content Runs

variable [Deps]

namespace DhtService

/-! ## §1 Frames -/

/-- At most the routing table differs. -/
def Rerouted (svc svc' : DhtService) : Prop :=
  ∃ routing, svc' = { svc with routing }

namespace Rerouted

variable {s t u : DhtService}

omit [Deps] in
theorem trans (h : Rerouted s t) (h' : Rerouted t u) : Rerouted s u := by
  obtain ⟨routing, rfl⟩ := h
  obtain ⟨routing', rfl⟩ := h'
  exact ⟨routing', rfl⟩

omit [Deps] in
theorem assertionSide (h : Rerouted s t) : t.assertionSide = s.assertionSide := by
  obtain ⟨routing, rfl⟩ := h
  rfl

omit [Deps] in
theorem providers (h : Rerouted s t) : t.providers = s.providers := by
  obtain ⟨routing, rfl⟩ := h
  rfl

omit [Deps] in
theorem discovered (h : Rerouted s t) : t.discovered = s.discovered := by
  obtain ⟨routing, rfl⟩ := h
  rfl

end Rerouted

section Frames

variable (svc : DhtService)

theorem rerouted_searchAndAbsorb (swarm : Swarm) (target : Key) :
    Rerouted svc (svc.searchAndAbsorb swarm target).1 := by
  unfold searchAndAbsorb
  simp only
  split <;> exact ⟨_, rfl⟩

theorem publish_fst (swarm : Swarm) (target : Key) (record : ProviderRecord) :
    (svc.publish swarm target record).1 = (svc.searchAndAbsorb swarm target).1 := by
  unfold publish
  cases svc.searchAndAbsorb swarm target with
  | mk s w => cases w <;> rfl

theorem rerouted_publish (swarm : Swarm) (target : Key) (record : ProviderRecord) :
    Rerouted svc (svc.publish swarm target record).1 := by
  rw [publish_fst]
  exact svc.rerouted_searchAndAbsorb swarm target

theorem findNode_fst (swarm : Swarm) (peerId : PeerId) :
    (svc.findNode swarm peerId).1 =
      (svc.searchAndAbsorb swarm (Key.fromPeerId peerId)).1 := by
  unfold findNode
  simp only
  cases svc.searchAndAbsorb swarm (Key.fromPeerId peerId) with
  | mk s w => cases w <;> rfl

theorem rerouted_refreshFrom (random : Nat → Bytes32) (swarms : Nat → Swarm) (i : Nat)
    (indices : List (Fin 256)) : Rerouted svc (svc.refreshFrom random swarms i indices).1 := by
  induction indices generalizing svc i with
  | nil => exact ⟨svc.routing, rfl⟩
  | cons idx rest ih =>
    exact (svc.rerouted_searchAndAbsorb (swarms i) _).trans (ih _ (i + 1))

theorem rerouted_bootstrap (swarm : Swarm) (peers : List BootstrapPeer) :
    Rerouted svc (svc.bootstrap swarm peers).1 := by
  unfold bootstrap
  split <;> exact ⟨_, rfl⟩

theorem rerouted_learnCaller {svc svc' : DhtService} {caller : Option Contact}
    (h : svc.learnCaller caller = some svc') : Rerouted svc svc' := by
  unfold learnCaller at h
  repeat' split at h
  all_goals cases h
  all_goals exact ⟨_, rfl⟩

theorem assertionSide_findProviders (clock : Nat → Nat) (swarm : Swarm) (content : ContentId) :
    (svc.findProviders clock swarm content).1.assertionSide = svc.assertionSide := by
  unfold findProviders
  simp only
  split
  · rfl
  · split <;> rfl

end Frames

/-! ## §2 The operations as store operations -/

theorem admitVerifiedRecord_fst (svc : DhtService) (record : ProviderRecord) (now : Nat) :
    (svc.admitVerifiedRecord record now).1.assertionSide =
        { svc.assertionSide with
          providers := (svc.providers.putAt (svc.clampedRecord record now) now).1 } ∧
      (svc.admitVerifiedRecord record now).1.discovered = svc.discovered := by
  unfold admitVerifiedRecord
  simp only
  split
  · split <;> exact ⟨rfl, rfl⟩
  · exact ⟨rfl, rfl⟩

theorem republishOps_congr {a b : AssertionSide} (hnode : a.toNodeProfile = b.toNodeProfile)
    (hannounced : a.providers.announced = b.providers.announced) (clock : Nat → Nat) (i : Nat)
    (keys : List String) : a.republishOps clock i keys = b.republishOps clock i keys := by
  induction keys generalizing i with
  | nil => rfl
  | cons hex rest ih =>
    simp only [AssertionSide.republishOps, ih, hnode, ProviderStore.announcedCollateral,
      hannounced]

/-- What a republish does to the two stores, and which records it offers:
the ones its puts put. -/
theorem republishFrom_spec (svc : DhtService) (clock : Nat → Nat) (swarms : Nat → Swarm)
    (i : Nat) (keys : List String) :
    (svc.republishFrom clock swarms i keys).1.assertionSide =
        { svc.assertionSide with
          providers := exec Store.step svc.providers
            (svc.assertionSide.republishOps clock i keys) } ∧
      (svc.republishFrom clock swarms i keys).1.discovered = svc.discovered ∧
      ∀ r ∈ (svc.republishFrom clock swarms i keys).2.1,
        ∃ now, StoreOp.putAt r now ∈ svc.assertionSide.republishOps clock i keys := by
  induction keys generalizing svc i with
  | nil => exact ⟨rfl, rfl, by simp [republishFrom]⟩
  | cons hex rest ih =>
    unfold republishFrom AssertionSide.republishOps
    cases hparse : parseKey hex with
    | none => exact ih svc (i + 1)
    | some target =>
      let record := svc.republishedRecord (svc.providers.announcedCollateral hex) target
        (clock (2 * i))
      let stored : DhtService :=
        { svc with providers := (svc.providers.putAt record (clock (2 * i + 1))).1 }
      let published := (stored.publish (swarms i) target record).1
      have hpublished := stored.rerouted_publish (swarms i) target record
      have hside : published.assertionSide = stored.assertionSide := hpublished.assertionSide
      have hcache : published.discovered = svc.discovered := hpublished.discovered
      have hstore : published.providers = stored.providers := hpublished.providers
      -- The put leaves the announced map alone, so the rest of the list is
      -- republished from the pointers remembered at the start.
      have hops : published.assertionSide.republishOps clock (i + 1) rest =
          svc.assertionSide.republishOps clock (i + 1) rest := by
        rw [hside]
        exact republishOps_congr (a := stored.assertionSide) (b := svc.assertionSide) rfl
          (svc.providers.announced_putAt _ _) clock (i + 1) rest
      obtain ⟨hsideRest, hcacheRest, hrecords⟩ := ih published (i + 1)
      rw [hops, hstore, hside] at hsideRest
      refine ⟨hsideRest, hcacheRest.trans hcache, ?_⟩
      intro r hr
      rcases List.mem_cons.mp hr with rfl | hr
      · exact ⟨_, List.mem_cons_self⟩
      · obtain ⟨now, hput⟩ := hrecords r hr
        rw [hops] at hput
        exact ⟨now, List.mem_cons_of_mem _ hput⟩

/-- Answering changes the service by admitting the caller's own record,
and by nothing else. -/
theorem answer_fst (svc : DhtService) (now : Nat) (caller : Option String)
    (request : DhtRequest) :
    (svc.answer now caller request).1 = svc ∨
    ∃ record, request = .addProvider record ∧ namesAnother caller record = false ∧
      (svc.answer now caller request).1 = (svc.admitVerifiedRecord record now).1 := by
  cases request with
  | ping nonce => exact Or.inl rfl
  | findNode target =>
    simp only [answer]
    split <;> exact Or.inl rfl
  | findProviders contentKey =>
    simp only [answer]
    split <;> exact Or.inl rfl
  | addProvider record =>
    simp only [answer]
    cases hother : namesAnother caller record with
    | true => exact Or.inl (by simp)
    | false =>
      refine Or.inr ⟨record, rfl, hother, ?_⟩
      rw [if_neg Bool.false_ne_true]
      split <;> rename_i heq <;> rw [heq]

/-- Learning the caller panics where the specification says so, and
otherwise touches the table only. -/
theorem learnCaller_spec {svc : DhtService}
    (ht : WellPlaced svc.localId svc.config.k svc.routing) (caller : Option Contact) :
    (svc.callerPanics caller = true ∧ svc.learnCaller caller = none) ∨
    (svc.callerPanics caller = false ∧ ∃ routing,
      svc.learnCaller caller = some { svc with routing }) := by
  cases caller with
  | none => exact Or.inr ⟨rfl, svc.routing, rfl⟩
  | some c =>
    simp only [learnCaller, NodeProfile.callerPanics]
    by_cases hself : c.peerId = svc.selfId
    · exact Or.inr ⟨by simp [hself], svc.routing, by simp [hself]⟩
    · have hpanic := insert_panicked_iff ht c.capped
      have hbucket : svc.routing.bucketOf c.capped =
          c.key.bind fun key => ((Key.fromPeerId svc.localId).distance key).bucketIndex := by
        have hfor : svc.routing.bucketFor =
            fun key => ((Key.fromPeerId svc.localId).distance key).bucketIndex := by
          funext key
          rw [RoutingTable.bucketFor, ht.localKey_eq]
        rw [RoutingTable.bucketOf, hfor]
        rfl
      rw [hbucket] at hpanic
      rw [if_neg hself]
      cases houtcome : svc.routing.insert c.capped with
      | mk routing outcome =>
        rw [houtcome] at hpanic
        cases outcome with
        | panicked =>
          obtain ⟨hk, hsome⟩ := hpanic.mp rfl
          exact Or.inl ⟨by simp [hself, NodeProfile.insertPanics, hk, hsome], rfl⟩
        | inserted =>
          refine Or.inr ⟨?_, routing, rfl⟩
          simpa [hself, NodeProfile.insertPanics] using hpanic
        | full lru =>
          refine Or.inr ⟨?_, routing, rfl⟩
          simpa [hself, NodeProfile.insertPanics] using hpanic

/-- Serving a request refines the specification of it. -/
theorem assertionSide_handleRequestFrom {svc : DhtService}
    (ht : WellPlaced svc.localId svc.config.k svc.routing) (input : Input)
    (caller : Option Contact) (request : DhtRequest)
    (hop : input.op = .handleRequestFrom caller request) :
    (svc.handleRequestFrom (input.clock 0) caller request).1.assertionSide =
        svc.assertionSide.next input ∧
      ((svc.handleRequestFrom (input.clock 0) caller request).2.map Reply.response).bind
        Reply.asserted = svc.assertionSide.asserts input := by
  unfold handleRequestFrom AssertionSide.next AssertionSide.storeOps AssertionSide.asserts
  rcases learnCaller_spec ht caller with ⟨hpanics, hlearn⟩ | ⟨hpanics, routing, hlearn⟩ <;>
    rw [hlearn, hop]
  · cases request <;> simp [hpanics, assertionSide]
  · cases request with
    | ping nonce => exact ⟨rfl, rfl⟩
    | findNode target =>
      simp only [answer]
      split <;> exact ⟨rfl, rfl⟩
    | findProviders contentKey =>
      simp only [answer, assertionSide, hpanics]
      cases parseKey contentKey <;> exact ⟨rfl, rfl⟩
    | addProvider record =>
      simp only [answer, assertionSide, hpanics]
      by_cases hother : namesAnother (caller.map Contact.peerId) record = true
      · simp [hother, Reply.asserted]
      · obtain ⟨hside, -⟩ :=
          admitVerifiedRecord_fst { svc with routing } record (input.clock 0)
        rw [if_neg hother]
        cases hadmitted : admitVerifiedRecord { svc with routing } record (input.clock 0) with
        | mk svc' outcome =>
          rw [hadmitted] at hside
          simp only [hother]
          rcases outcome with _ | (_ | _) <;> exact ⟨hside, rfl⟩

/-- **The service refines its assertion side.** Whatever the world does,
the authoritative store and what the node asserts follow the
specification. -/
theorem assertionSide_step {svc : DhtService}
    (ht : WellPlaced svc.localId svc.config.k svc.routing) (input : Input) (world : World) :
    (step svc input world).1.assertionSide = svc.assertionSide.next input ∧
      (step svc input world).2.reply.asserted = svc.assertionSide.asserts input := by
  obtain ⟨op, clock, order, hperm⟩ := input
  cases op with
  | bootstrap peers =>
    refine ⟨(svc.rerouted_bootstrap _ peers).assertionSide, ?_⟩
    simp only [step]
    cases (svc.bootstrap (world.swarms 0) peers).2.1 <;> rfl
  | addPeer peerId addresses =>
    simp only [step]
    split <;> exact ⟨rfl, rfl⟩
  | removePeer peerIdHex => exact ⟨rfl, rfl⟩
  | findNode peerId =>
    refine ⟨?_, ?_⟩
    · simp only [step, findNode_fst]
      exact (svc.rerouted_searchAndAbsorb _ _).assertionSide
    · simp only [step]
      cases (svc.findNode (world.swarms 0) peerId).2.1 <;> rfl
  | findProviders content => exact ⟨svc.assertionSide_findProviders clock _ content, rfl⟩
  | cachedProviders content => exact ⟨rfl, rfl⟩
  | forgetDiscovered content => exact ⟨rfl, rfl⟩
  | announceProviderWithCollateral content coin =>
    exact ⟨(rerouted_publish _ _ _ _).assertionSide, rfl⟩
  | withdrawProvider content => exact ⟨rfl, rfl⟩
  | ingestVerifiedProvider record =>
    refine ⟨(admitVerifiedRecord_fst svc record (clock 0)).1, ?_⟩
    simp only [step]
    cases (svc.admitVerifiedRecord record (clock 0)).2 <;> rfl
  | removeProviderRecord contentKey providerPeerId => exact ⟨rfl, rfl⟩
  | providerSnapshot maxKeys => exact ⟨rfl, rfl⟩
  | retractOwnProvider content => exact ⟨rfl, rfl⟩
  | holdersOf content => exact ⟨svc.assertionSide_findProviders clock _ content, rfl⟩
  | republish => exact ⟨(republishFrom_spec svc clock world.swarms 0 _).1, rfl⟩
  | refreshBuckets => exact ⟨(svc.rerouted_refreshFrom _ _ 0 _).assertionSide, rfl⟩
  | gc => exact ⟨rfl, rfl⟩
  | ping peer =>
    simp only [step, ping]
    split <;> exact ⟨rfl, rfl⟩
  | handleRequestFrom caller request =>
    obtain ⟨hside, hreply⟩ :=
      assertionSide_handleRequestFrom ht ⟨_, clock, order, hperm⟩ caller request rfl
    refine ⟨hside, ?_⟩
    rw [← hreply]
    simp only [step]
    cases (svc.handleRequestFrom (clock 0) caller request).2 <;> rfl
  | knownClosest target => exact ⟨rfl, rfl⟩
  | routingLen => exact ⟨rfl, rfl⟩

/-! ### What a lookup brings in -/

end DhtService

/-- Some answer to a lookup names the contact. -/
def Swarm.Names (swarm : Swarm) (c : Contact) : Prop :=
  ∃ asked d contentKey response,
    swarm.rpc asked d (.findProviders contentKey) = some response ∧ c ∈ response.contacts

/-- Some answer to a lookup carries the record. -/
def Swarm.Carries (swarm : Swarm) (r : ProviderRecord) : Prop :=
  ∃ asked d contentKey response,
    swarm.rpc asked d (.findProviders contentKey) = some response ∧ r ∈ response.records

/-- A network in which every peer gives one answer to every lookup. -/
def tellingWorld (response : DhtResponse) : World where
  swarms _ := {
    rpc := fun _ _ _ => some response
    arrival := fun _ batch => batch
    arrival_perm := fun _ => List.Perm.refl }
  random _ := List.Vector.replicate 32 0
  nonce := 0

omit [Deps] in
theorem names_tellingWorld {response : DhtResponse} {i : Nat} {c : Contact}
    (h : ((tellingWorld response).swarms i).Names c) : c ∈ response.contacts := by
  obtain ⟨_, _, _, res, hres, hc⟩ := h
  cases hres
  exact hc

omit [Deps] in
theorem carries_tellingWorld {response : DhtResponse} {i : Nat} {r : ProviderRecord}
    (h : ((tellingWorld response).swarms i).Carries r) : r ∈ response.records := by
  obtain ⟨_, _, _, res, hres, hr⟩ := h
  cases hres
  exact hr

omit [Deps] in
/-- What a query outcome holds was in the response. -/
theorem queryOutcome_eq_some {contentKey : String} {response : Option DhtResponse}
    {o : QueryOutcome} (h : queryOutcome contentKey response = some o) :
    ∃ res, response = some res ∧ o.closer = res.contacts ∧
      ∀ r ∈ o.providers, r ∈ res.records ∧ r.contentKey = contentKey := by
  unfold queryOutcome at h
  split at h
  · rename_i providers closer
    cases h
    refine ⟨_, rfl, rfl, ?_⟩
    intro r hr
    obtain ⟨hmem, hkey⟩ := List.mem_filter.mp hr
    exact ⟨hmem, by simpa using hkey⟩
  · cases h
    exact ⟨_, rfl, rfl, nofun⟩
  · cases h

namespace DhtService

section Lookups

variable {svc : DhtService} {swarm : Swarm} {target : Key} {seeds : List Contact} {stop : Bool}

variable (svc swarm target seeds stop) in
theorem runLookup_inv : (svc.lookupParams target stop).Grounded (swarm.peers target.toHex) seeds
    (svc.runLookup swarm target seeds stop).1 :=
  (svc.lookupParams target stop).grounded_walk _ seeds

/-- A lookup hears of its seeds and of what it is told of. -/
theorem mem_heard_runLookup {c : Contact}
    (h : c ∈ (svc.lookupParams target stop).heard seeds
      (svc.runLookup swarm target seeds stop).1) : c ∈ seeds ∨ swarm.Names c := by
  rcases List.mem_append.mp h with hc | hc
  · exact Or.inl hc
  · obtain ⟨a, ha, hc⟩ := List.mem_flatMap.mp hc
    obtain ⟨asked, hanswer⟩ := (runLookup_inv svc swarm target seeds stop).answered a ha
    unfold LookupParams.learnt at hc
    cases ho : a.2 with
    | none => simp [ho] at hc
    | some o =>
      rw [ho] at hc hanswer
      obtain ⟨res, hres, hcloser, -⟩ := queryOutcome_eq_some hanswer.symm
      exact Or.inr ⟨asked, a.1, _, res, hres, hcloser ▸ List.mem_of_mem_take hc⟩

/-- It returns what it heard of. -/
theorem mem_closest_runLookup {c : Contact}
    (h : c ∈ ((svc.runLookup swarm target seeds stop).1.result svc.config.k).closest) :
    c ∈ seeds ∨ swarm.Names c :=
  mem_heard_runLookup
    (LookupParams.mem_heard_of_mem_closest _ (runLookup_inv svc swarm target seeds stop) h)

/-- A provider a lookup collects came with the answer to one of its calls. -/
theorem exists_outcome_of_mem_providers {r : ProviderRecord}
    (h : r ∈ FMap.values (svc.runLookup swarm target seeds stop).1.providers) :
    ∃ a ∈ (svc.runLookup swarm target seeds stop).1.trace, ∃ o, a.2 = some o ∧
      r ∈ o.providers := by
  have hinv := runLookup_inv svc swarm target seeds stop
  obtain ⟨x, hx⟩ := FMap.mem_values_iff.mp h
  rw [hinv.lookup_providers] at hx
  obtain ⟨a, ha, hr⟩ := List.mem_flatMap.mp (List.mem_of_find?_eq_some hx)
  unfold LookupParams.contribution at hr
  cases ho : a.2 with
  | none => simp [ho] at hr
  | some o =>
    rw [ho] at hr
    exact ⟨a, ha, o, ho, List.mem_of_mem_take hr⟩

/-- The providers a lookup collects were carried by answers, for its key. -/
theorem mem_providers_runLookup {r : ProviderRecord}
    (h : r ∈ FMap.values (svc.runLookup swarm target seeds stop).1.providers) :
    swarm.Carries r ∧ r.contentKey = target.toHex := by
  obtain ⟨a, ha, o, ho, hr⟩ := exists_outcome_of_mem_providers h
  obtain ⟨asked, hanswer⟩ := (runLookup_inv svc swarm target seeds stop).answered a ha
  rw [ho] at hanswer
  obtain ⟨res, hres, -, hrecords⟩ := queryOutcome_eq_some hanswer.symm
  obtain ⟨hmem, hkey⟩ := hrecords r hr
  exact ⟨⟨asked, a.1, _, res, hres, hmem⟩, hkey⟩

end Lookups

/-! ### The routing table -/

/-- A contact an operation is given, makes or is told of. -/
inductive Hears (input : Input) (world : World) : Contact → Prop
  | bootstrap (peers : List BootstrapPeer) (p : BootstrapPeer) (hop : input.op = .bootstrap peers)
      (hp : p ∈ peers) : Hears input world p.toContact
  | addPeer (peerId : PeerId) (addresses : List CandidateAddr)
      (hop : input.op = .addPeer peerId addresses) :
      Hears input world (Contact.new peerId addresses)
  | ingest (record : ProviderRecord) (p : PeerId) (addresses : List CandidateAddr)
      (hop : input.op = .ingestVerifiedProvider record) (hp : record.provider = some p) :
      Hears input world (Contact.new p addresses)
  | serve (caller : Option Contact) (record : ProviderRecord) (p : PeerId)
      (addresses : List CandidateAddr)
      (hop : input.op = .handleRequestFrom caller (.addProvider record))
      (hp : record.provider = some p) : Hears input world (Contact.new p addresses)
  | caller (c : Contact) (request : DhtRequest)
      (hop : input.op = .handleRequestFrom (some c) request) : Hears input world c
  | told (i : Nat) (c : Contact) (hc : (world.swarms i).Names c) : Hears input world c

/-- A table operation of the service: it inserts a contact that meets `K`
with its addresses capped, or removes one. -/
def InsertsFrom (K : Contact → Prop) : RoutingOp → Prop
  | .insert c => ∃ d, K d ∧ c = d.capped
  | .replace _ _ => False
  | .remove _ => True

/-- The table moved by such operations. -/
abbrev Moves (K : Contact → Prop) : RoutingTable → RoutingTable → Prop :=
  Reach Routing.step (InsertsFrom K)

section Table

variable {K : Contact → Prop}

theorem moves_capped (t : RoutingTable) {c : Contact} (hc : K c) :
    Moves K t (t.insert c.capped).1 :=
  Reach.single t (i := RoutingOp.insert c.capped) ⟨c, hc, rfl⟩

theorem moves_new (t : RoutingTable) {p : PeerId} {addresses : List CandidateAddr}
    (hc : K (Contact.new p addresses)) : Moves K t (t.insert (Contact.new p addresses)).1 := by
  have hmove := moves_capped t hc
  rwa [Contact.capped_new] at hmove

theorem moves_remove (t : RoutingTable) (x : String) : Moves K t (t.remove x).1 :=
  Reach.single t (i := RoutingOp.remove x) trivial

theorem moves_absorbContacts (svc : DhtService) {cs : List Contact} (hcs : ∀ c ∈ cs, K c) :
    Moves K svc.routing (svc.absorbContacts cs).routing := by
  refine List.foldlRecOn cs _ (Reach.refl _) ?_
  intro rt hrt c hc
  exact hrt.trans (moves_capped rt (hcs c hc))

theorem moves_insertAll (rt : RoutingTable) {peers : List BootstrapPeer}
    (hpeers : ∀ p ∈ peers, K p.toContact) :
    Moves K rt (insertAll rt (peers.map BootstrapPeer.toContact)).1 := by
  induction peers generalizing rt with
  | nil => exact Reach.refl rt
  | cons p peers ih =>
    have hhead := moves_new rt (hpeers p List.mem_cons_self)
    simp only [List.map_cons, insertAll, BootstrapPeer.toContact]
    split
    · rename_i rt' heq
      rwa [heq] at hhead
    · rename_i rt' outcome _ heq
      rw [heq] at hhead
      exact hhead.trans (ih rt' fun q hq => hpeers q (List.mem_cons_of_mem p hq))

theorem moves_admitVerifiedRecord (svc : DhtService) {record : ProviderRecord} (now : Nat)
    (hrecord : ∀ p addresses, record.provider = some p → K (Contact.new p addresses)) :
    Moves K svc.routing (svc.admitVerifiedRecord record now).1.routing := by
  unfold admitVerifiedRecord
  simp only
  split
  · rename_i pid _ hpid
    have hmove := moves_new svc.routing
      (hrecord pid (svc.clampedRecord record now).addresses hpid)
    split <;> rename_i heq <;> rwa [heq] at hmove
  · exact Reach.refl _

theorem moves_learnCaller {svc svc' : DhtService} {caller : Option Contact}
    (hcaller : ∀ c ∈ caller, K c) (h : svc.learnCaller caller = some svc') :
    Moves K svc.routing svc'.routing := by
  unfold learnCaller at h
  split at h
  · cases h
    exact Reach.refl _
  · rename_i c
    split at h
    · cases h
      exact Reach.refl _
    · have hmove := moves_capped svc.routing (hcaller c rfl)
      split at h
      · cases h
      · rename_i heq
        cases h
        rwa [heq] at hmove

theorem moves_handleRequestFrom (svc : DhtService) (now : Nat) {caller : Option Contact}
    {request : DhtRequest} (hcaller : ∀ c ∈ caller, K c)
    (hrecord : ∀ record p addresses, request = .addProvider record → record.provider = some p →
      K (Contact.new p addresses)) :
    Moves K svc.routing (svc.handleRequestFrom now caller request).1.routing := by
  unfold handleRequestFrom
  cases hlearn : svc.learnCaller caller with
  | none => exact Reach.refl _
  | some svc' =>
    refine (moves_learnCaller hcaller hlearn).trans ?_
    rcases svc'.answer_fst now (caller.map Contact.peerId) request with h | ⟨record, hreq, -, h⟩
    · simp only [h]
      exact Reach.refl _
    · simp only [h]
      exact moves_admitVerifiedRecord svc' now fun p addresses => hrecord record p addresses hreq

/-! Where the table itself holds nothing else, lookups from it move it by
what they are told. -/

variable (hcap : ∀ c, K c → K c.capped)

include hcap in
theorem Moves.known {t t' : RoutingTable} (hmoves : Moves K t t')
    (ht : ∀ c ∈ t.contacts, K c) : ∀ c ∈ t'.contacts, K c := by
  refine Reach.invariant (Q := fun t : RoutingTable => ∀ c ∈ t.contacts, K c) ?_ hmoves ht
  intro t op ht hop c hc
  rcases mem_step hc with hold | hnew
  · exact ht c hold
  · cases op with
    | insert d =>
      obtain ⟨d', hd', rfl⟩ := hop
      cases hnew
      exact hcap d' hd'
    | replace lru candidate => exact hop.elim
    | remove x => cases hnew

theorem moves_lookup (svc : DhtService) {swarm : Swarm} {target : Key} {seeds : List Contact}
    {stop : Bool} (hseeds : ∀ c ∈ seeds, K c) (hswarm : ∀ c, swarm.Names c → K c) :
    Moves K svc.routing (svc.absorbContacts
      ((svc.runLookup swarm target seeds stop).1.result svc.config.k).closest).routing := by
  refine svc.moves_absorbContacts ?_
  intro c hc
  rcases mem_closest_runLookup hc with hseed | htold
  · exact hseeds c hseed
  · exact hswarm c htold

theorem moves_searchAndAbsorb (svc : DhtService) {swarm : Swarm} (target : Key)
    (htable : ∀ c ∈ svc.routing.contacts, K c) (hswarm : ∀ c, swarm.Names c → K c) :
    Moves K svc.routing (svc.searchAndAbsorb swarm target).1.routing := by
  unfold searchAndAbsorb
  simp only
  split
  · exact Reach.refl _
  · exact svc.moves_lookup (fun c hc => htable c (RoutingTable.mem_of_mem_closest hc)) hswarm

theorem moves_findProviders {svc : DhtService} (clock : Nat → Nat) {swarm : Swarm}
    (content : ContentId) (htable : ∀ c ∈ svc.routing.contacts, K c)
    (hswarm : ∀ c, swarm.Names c → K c) :
    Moves K svc.routing (svc.findProviders clock swarm content).1.routing := by
  unfold findProviders
  simp only
  split
  · exact Reach.refl _
  · split
    · exact Reach.refl _
    · exact svc.moves_lookup (fun c hc => htable c (RoutingTable.mem_of_mem_closest hc)) hswarm

include hcap in
theorem moves_refreshFrom {svc : DhtService} (random : Nat → Bytes32) {swarms : Nat → Swarm}
    (i : Nat) (indices : List (Fin 256)) (htable : ∀ c ∈ svc.routing.contacts, K c)
    (hswarms : ∀ i c, (swarms i).Names c → K c) :
    Moves K svc.routing (svc.refreshFrom random swarms i indices).1.routing := by
  induction indices generalizing svc i with
  | nil => exact Reach.refl _
  | cons idx rest ih =>
    have hmove :=
      svc.moves_searchAndAbsorb (svc.randomKeyInBucket idx (random i)) htable (hswarms i)
    exact hmove.trans (ih (i + 1) (hmove.known hcap htable))

include hcap in
theorem moves_republishFrom {svc : DhtService} (clock : Nat → Nat) {swarms : Nat → Swarm}
    (i : Nat) (keys : List String) (htable : ∀ c ∈ svc.routing.contacts, K c)
    (hswarms : ∀ i c, (swarms i).Names c → K c) :
    Moves K svc.routing (svc.republishFrom clock swarms i keys).1.routing := by
  induction keys generalizing svc i with
  | nil => exact Reach.refl _
  | cons hex rest ih =>
    unfold republishFrom
    cases parseKey hex with
    | none => exact ih (i + 1) htable
    | some target =>
      let record := svc.republishedRecord (svc.providers.announcedCollateral hex) target
        (clock (2 * i))
      let stored : DhtService :=
        { svc with providers := (svc.providers.putAt record (clock (2 * i + 1))).1 }
      have hmove : Moves K svc.routing (stored.publish (swarms i) target record).1.routing := by
        rw [publish_fst]
        exact stored.moves_searchAndAbsorb target htable (hswarms i)
      exact hmove.trans (ih (i + 1) (hmove.known hcap htable))

include hcap in
/-- Every operation moves the table by removes and by inserts of contacts
it hears of. -/
theorem moves_step {svc : DhtService} {input : Input} {world : World}
    (htable : ∀ c ∈ svc.routing.contacts, K c) (hheard : ∀ c, Hears input world c → K c) :
    Moves K svc.routing (step svc input world).1.routing := by
  have hswarms : ∀ i c, (world.swarms i).Names c → K c := fun i c hc => hheard c (.told i c hc)
  obtain ⟨op, clock, order, hperm⟩ := input
  cases op with
  | bootstrap peers =>
    have hpeers : ∀ p ∈ peers, K p.toContact := fun p hp =>
      hheard _ (.bootstrap peers p rfl hp)
    have hmove := moves_insertAll svc.routing hpeers
    simp only [step, bootstrap]
    split <;> rename_i routing heq <;> rw [heq] at hmove
    · exact hmove
    · refine hmove.trans (moves_lookup { svc with routing } ?_ (hswarms 0))
      exact List.forall_mem_map.mpr hpeers
  | addPeer peerId addresses =>
    have hmove := moves_new svc.routing (hheard _ (.addPeer peerId addresses rfl))
    simp only [step]
    split <;> rename_i heq <;> rwa [heq] at hmove
  | removePeer peerIdHex => exact moves_remove svc.routing peerIdHex
  | findNode peerId =>
    simp only [step, findNode_fst]
    exact svc.moves_searchAndAbsorb _ htable (hswarms 0)
  | findProviders content => exact moves_findProviders clock content htable (hswarms 0)
  | announceProviderWithCollateral content coin =>
    simp only [step, announceProviderWithCollateral, publish_fst]
    exact (svc.storeAnnounced _ _ _).moves_searchAndAbsorb _ htable (hswarms 0)
  | ingestVerifiedProvider record =>
    exact svc.moves_admitVerifiedRecord (clock 0) fun p addresses hp =>
      hheard _ (.ingest record p addresses rfl hp)
  | holdersOf content => exact moves_findProviders clock content htable (hswarms 0)
  | republish => exact moves_republishFrom hcap clock 0 _ htable hswarms
  | refreshBuckets => exact moves_refreshFrom hcap _ 0 _ htable hswarms
  | ping peer =>
    simp only [step, ping]
    split
    · exact Reach.refl _
    · exact moves_remove svc.routing peer.peerId
  | handleRequestFrom caller request =>
    refine svc.moves_handleRequestFrom (clock 0) ?_ ?_
    · intro c hc
      cases hc
      exact hheard c (.caller c request rfl)
    · intro record p addresses hreq hp
      subst hreq
      exact hheard _ (.serve caller record p addresses rfl hp)
  | cachedProviders _ => exact Reach.refl _
  | forgetDiscovered _ => exact Reach.refl _
  | withdrawProvider _ => exact Reach.refl _
  | removeProviderRecord _ _ => exact Reach.refl _
  | providerSnapshot _ => exact Reach.refl _
  | retractOwnProvider _ => exact Reach.refl _
  | gc => exact Reach.refl _
  | knownClosest _ => exact Reach.refl _
  | routingLen => exact Reach.refl _

end Table

/-- A table operation that stores no address list but a capped one. -/
def CappedOp (op : RoutingOp) : Prop :=
  ∀ c, op.offered = some c → ∃ addresses, c.addresses = sortAndCapAddresses addresses

/-- The table moved by operations that keep address lists capped. -/
abbrev TableMoves : RoutingTable → RoutingTable → Prop :=
  Reach Routing.step CappedOp

theorem Moves.capped {K : Contact → Prop} {t t' : RoutingTable} (h : Moves K t t') :
    TableMoves t t' := by
  refine Reach.imp ?_ h
  intro op hop c hc
  cases op with
  | insert d =>
    obtain ⟨d', -, rfl⟩ := hop
    cases hc
    exact ⟨d'.addresses, rfl⟩
  | replace lru candidate => exact hop.elim
  | remove x => cases hc

theorem tableMoves_absorbContacts (svc : DhtService) (cs : List Contact) :
    TableMoves svc.routing (svc.absorbContacts cs).routing :=
  (svc.moves_absorbContacts (K := fun _ => True) fun _ _ => trivial).capped

theorem tableMoves_step (svc : DhtService) (input : Input) (world : World) :
    TableMoves svc.routing (step svc input world).1.routing :=
  (moves_step (K := fun _ => True) (fun _ _ => trivial) (fun _ _ => trivial)
    (fun _ _ => trivial)).capped

/-! ### What a step answers with -/

end DhtService

/-- A reply that names no contact and no provider. -/
def Reply.Plain : Reply → Prop
  | .records _ => False
  | .contacts _ => False
  | .holders _ => False
  | .response (.nodes _) => False
  | .response (.providers _ _) => False
  | _ => True

namespace DhtService

/-- Where the contacts and the providers of a reply come from. -/
inductive Replies (svc : DhtService) (input : Input) (world : World) : Reply → Prop
  | plain {reply : Reply} (hplain : reply.Plain) : Replies svc input world reply
  | known (target : Key) : Replies svc input world (.contacts (svc.routing.closest target))
  | found (peerId : PeerId) (hop : input.op = .findNode peerId) :
      Replies svc input world (.contacts ((svc.runLookup (world.swarms 0) (Key.fromPeerId peerId)
        (svc.seedContacts (Key.fromPeerId peerId)) false).1.result svc.config.k).closest)
  | cached (content : ContentId) :
      Replies svc input world (.records (svc.cachedProviders (input.clock 0) content))
  | returned (content : ContentId) :
      Replies svc input world
        (.records (svc.findProviders input.clock (world.swarms 0) content).2.1)
  | holders (content : ContentId) :
      Replies svc input world (.holders
        ((svc.findProviders input.clock (world.swarms 0) content).2.1.filterMap
          ProviderRecord.provider))
  | nodes {caller : Option Contact} {request : DhtRequest} {svc' : DhtService}
      (hop : input.op = .handleRequestFrom caller request)
      (hlearn : svc.learnCaller caller = some svc') (key : Key) :
      Replies svc input world (.response (.nodes (svc'.routing.closest key)))
  | providers {caller : Option Contact} {request : DhtRequest} {svc' : DhtService}
      (hop : input.op = .handleRequestFrom caller request)
      (hlearn : svc.learnCaller caller = some svc') (key : Key) :
      Replies svc input world (.response
        (.providers (svc'.providers.get key.toHex (input.clock 0)) (svc'.routing.closest key)))

/-- Every reply is one of these. -/
theorem replies_step (svc : DhtService) (input : Input) (world : World) :
    Replies svc input world (step svc input world).2.reply := by
  obtain ⟨op, clock, order, hperm⟩ := input
  cases op with
  | bootstrap peers =>
    refine .plain ?_
    simp only [step]
    cases (svc.bootstrap (world.swarms 0) peers).2.1 <;> trivial
  | addPeer peerId addresses =>
    refine .plain ?_
    simp only [step]
    split <;> trivial
  | findNode peerId =>
    simp only [step, findNode, searchAndAbsorb]
    by_cases hseeds : svc.seedContacts (Key.fromPeerId peerId) = []
    · simp only [hseeds, if_true]
      exact .plain trivial
    · simp only [hseeds, if_false]
      exact .found peerId rfl
  | findProviders content => exact .returned content
  | cachedProviders content => exact .cached content
  | holdersOf content => exact .holders content
  | ingestVerifiedProvider record =>
    refine .plain ?_
    simp only [step]
    cases (svc.admitVerifiedRecord record (clock 0)).2 <;> trivial
  | handleRequestFrom caller request =>
    simp only [step, handleRequestFrom]
    cases hlearn : svc.learnCaller caller with
    | none => exact .plain trivial
    | some svc' =>
      cases request with
      | ping nonce => exact .plain trivial
      | findNode target =>
        simp only [answer]
        split
        · exact .plain trivial
        · exact .nodes rfl hlearn _
      | findProviders contentKey =>
        simp only [answer]
        split
        · exact .plain trivial
        · exact .providers rfl hlearn _
      | addProvider record =>
        refine .plain ?_
        simp only [answer]
        split
        · trivial
        · split <;> trivial
  | knownClosest target => exact .known target
  | removePeer _ => exact .plain trivial
  | forgetDiscovered _ => exact .plain trivial
  | announceProviderWithCollateral _ _ => exact .plain trivial
  | withdrawProvider _ => exact .plain trivial
  | removeProviderRecord _ _ => exact .plain trivial
  | providerSnapshot _ => exact .plain trivial
  | retractOwnProvider _ => exact .plain trivial
  | republish => exact .plain trivial
  | refreshBuckets => exact .plain trivial
  | gc => exact .plain trivial
  | ping _ => exact .plain trivial
  | routingLen => exact .plain trivial

/-! ### The discovery cache -/

/-- The cache writes of one `find_providers`. -/
def cachePuts (svc : DhtService) (clock : Nat → Nat) (swarm : Swarm) (content : ContentId) :
    List StoreOp :=
  let target := content.toKey
  let seeds := svc.seedContacts target
  if svc.discovered.get target.toHex (clock 0) ≠ [] ∨ seeds = [] then []
  else
    let w := (svc.runLookup swarm target seeds true).1
    (((FMap.values w.providers).map ProviderRecord.normalized).filterMap
      (svc.cacheEntry target.toHex (clock 1))).map fun entry => .putAt entry (clock 1)

/-- What an operation does to the discovery cache. -/
def cacheOps (svc : DhtService) (input : Input) (world : World) : List StoreOp :=
  match input.op with
  | .findProviders content => svc.cachePuts input.clock (world.swarms 0) content
  | .holdersOf content => svc.cachePuts input.clock (world.swarms 0) content
  | .forgetDiscovered content => [.removeKey content.toKey.toHex]
  | .gc => [.gc (input.clock 0)]
  | _ => []

/-- What is cached: a record for the key asked about, under the provider
it came with, who is not this node, live when it is written. -/
theorem cacheEntry_spec {node : NodeProfile} {contentKey : String} {now : Nat}
    {record entry : ProviderRecord} (h : node.cacheEntry contentKey now record = some entry) :
    entry.contentKey = contentKey ∧ entry.providerPeerId = record.providerPeerId ∧
      record.providerPeerId ≠ node.selfId ∧ record.isExpired now = false ∧
      entry.isExpired now = false := by
  unfold NodeProfile.cacheEntry at h
  split at h
  · cases h
  · rename_i hforeign
    obtain ⟨hself, hkey⟩ := not_or.mp hforeign
    simp only at h
    split at h
    · cases h
    · rename_i hlive
      cases h
      rw [Bool.not_eq_true] at hlive
      refine ⟨not_not.mp hkey, rfl, hself, ?_, hlive⟩
      by_contra hexpired
      rw [Bool.not_eq_false, ProviderRecord.isExpired_iff] at hexpired
      have hclamped : min record.expiresAt
          (saturatingAdd now node.config.discoveryCacheTtlSecs) ≤ now :=
        le_trans (min_le_left _ _) hexpired
      rw [← Bool.not_eq_true, ProviderRecord.isExpired_iff] at hlive
      exact hlive hclamped

/-- A cached record is the one found, normalised, with another expiry. -/
theorem cacheEntry_eq {node : NodeProfile} {contentKey : String} {now : Nat}
    {record entry : ProviderRecord} (h : node.cacheEntry contentKey now record = some entry) :
    ∃ expiresAt ≤ record.expiresAt, entry = { record.normalized with expiresAt } := by
  unfold NodeProfile.cacheEntry at h
  split at h
  · cases h
  · simp only at h
    split at h
    · cases h
    · cases h
      exact ⟨_, min_le_left _ _, rfl⟩

theorem mem_cachePuts {svc : DhtService} {clock : Nat → Nat} {swarm : Swarm}
    {content : ContentId} {op : StoreOp} (h : op ∈ svc.cachePuts clock swarm content) :
    ∃ r ∈ FMap.values (svc.runLookup swarm content.toKey (svc.seedContacts content.toKey)
        true).1.providers, ∃ entry,
      svc.cacheEntry content.toKey.toHex (clock 1) r.normalized = some entry ∧
        op = .putAt entry (clock 1) := by
  unfold cachePuts at h
  simp only at h
  split at h
  · cases h
  · obtain ⟨entry, hentry, rfl⟩ := List.mem_map.mp h
    obtain ⟨r', hr', hsome⟩ := List.mem_filterMap.mp hentry
    obtain ⟨r, hr, rfl⟩ := List.mem_map.mp hr'
    exact ⟨r, hr, entry, hsome, rfl⟩

/-- Only the two lookups for providers write to the cache. -/
theorem mem_cacheOps_putAt {svc : DhtService} {input : Input} {world : World}
    {entry : ProviderRecord} {now : Nat} (h : StoreOp.putAt entry now ∈ svc.cacheOps input world) :
    ∃ content, (input.op = .findProviders content ∨ input.op = .holdersOf content) ∧
      StoreOp.putAt entry now ∈ svc.cachePuts input.clock (world.swarms 0) content := by
  unfold cacheOps at h
  split at h
  · rename_i content hop
    exact ⟨content, Or.inl hop, h⟩
  · rename_i content hop
    exact ⟨content, Or.inr hop, h⟩
  · cases List.mem_singleton.mp h
  · cases List.mem_singleton.mp h
  · cases h

theorem discovered_findProviders (svc : DhtService) (clock : Nat → Nat) (swarm : Swarm)
    (content : ContentId) :
    (svc.findProviders clock swarm content).1.discovered =
      exec Store.step svc.discovered (svc.cachePuts clock swarm content) := by
  unfold findProviders cachePuts
  by_cases hcached : svc.discovered.get content.toKey.toHex (clock 0) ≠ []
  · simp [hcached]
  · by_cases hseeds : svc.seedContacts content.toKey = []
    · simp [hcached, hseeds]
    · have hneither : ¬(svc.discovered.get content.toKey.toHex (clock 0) ≠ [] ∨
          svc.seedContacts content.toKey = []) := not_or.mpr ⟨hcached, hseeds⟩
      simp only [if_neg hcached, if_neg hseeds, if_neg hneither, exec, List.foldl_map]
      rfl

theorem discovered_handleRequestFrom (svc : DhtService) (now : Nat) (caller : Option Contact)
    (request : DhtRequest) :
    (svc.handleRequestFrom now caller request).1.discovered = svc.discovered := by
  unfold handleRequestFrom
  cases hlearn : svc.learnCaller caller with
  | none => rfl
  | some svc' =>
    rw [← (rerouted_learnCaller hlearn).discovered]
    rcases svc'.answer_fst now (caller.map Contact.peerId) request with h | ⟨record, -, -, h⟩
    · simp only [h]
    · simp only [h]
      exact (admitVerifiedRecord_fst svc' record now).2

/-- The cache is written by the node's own lookups and by nothing else. -/
theorem discovered_step (svc : DhtService) (input : Input) (world : World) :
    (step svc input world).1.discovered =
      exec Store.step svc.discovered (svc.cacheOps input world) := by
  obtain ⟨op, clock, order, hperm⟩ := input
  cases op with
  | bootstrap peers => exact (svc.rerouted_bootstrap _ peers).discovered
  | addPeer peerId addresses => simp only [step]; split <;> rfl
  | findNode peerId =>
    simp only [step, findNode_fst]
    exact (svc.rerouted_searchAndAbsorb _ _).discovered
  | findProviders content => exact discovered_findProviders svc clock _ content
  | announceProviderWithCollateral content coin => exact (rerouted_publish _ _ _ _).discovered
  | ingestVerifiedProvider record => exact (admitVerifiedRecord_fst svc record (clock 0)).2
  | holdersOf content => exact discovered_findProviders svc clock _ content
  | republish => exact (republishFrom_spec svc clock world.swarms 0 _).2.1
  | refreshBuckets => exact (svc.rerouted_refreshFrom _ _ 0 _).discovered
  | ping peer => simp only [step, ping]; split <;> rfl
  | handleRequestFrom caller request => exact discovered_handleRequestFrom svc _ caller request
  | removePeer _ => rfl
  | cachedProviders _ => rfl
  | forgetDiscovered _ => rfl
  | withdrawProvider _ => rfl
  | removeProviderRecord _ _ => rfl
  | providerSnapshot _ => rfl
  | retractOwnProvider _ => rfl
  | gc => rfl
  | knownClosest _ => rfl
  | routingLen => rfl

/-- What a step does to each part of the service. -/
theorem step_fst {svc : DhtService} (ht : WellPlaced svc.localId svc.config.k svc.routing)
    (input : Input) (world : World) :
    (step svc input world).1 =
      { toNodeProfile := svc.toNodeProfile
        routing := (step svc input world).1.routing
        providers := exec Store.step svc.providers (svc.assertionSide.storeOps input)
        discovered := exec Store.step svc.discovered (svc.cacheOps input world) } := by
  have hside := (assertionSide_step ht input world).1
  have hnode : (step svc input world).1.toNodeProfile = svc.toNodeProfile :=
    congrArg AssertionSide.toNodeProfile hside
  have hstored : (step svc input world).1.providers =
      exec Store.step svc.providers (svc.assertionSide.storeOps input) :=
    congrArg AssertionSide.providers hside
  rw [← hnode, ← hstored, ← discovered_step]

/-! ## §3 The invariant of a service -/

/-- What holds of a service in every state. -/
structure Valid (svc : DhtService) : Prop where
  routed : WellPlaced svc.localId svc.config.k svc.routing
  providers : svc.providers.WellFormed
  discovered : svc.discovered.WellFormed
  announced : ∀ hex ∈ svc.providers.localAnnouncements, ∃ key : Key, hex = key.toHex
  foreign : ∀ k x e, svc.discovered.entry k x = some e → x ≠ svc.selfId

theorem valid_new (localId : PeerId) (addresses : List CandidateAddr) (config : DhtConfig) :
    (new localId addresses config).Valid where
  routed := wellPlaced_new localId config.k
  providers := ProviderStore.wellFormed_withLimits _
  discovered := ProviderStore.wellFormed_withLimits _
  announced := by simp [new, ProviderStore.withLimits, ProviderStore.localAnnouncements]
  foreign := by simp [new, ProviderStore.withLimits, ProviderStore.entry]

/-- A republish only puts, and only records rebuilt for a listed key with
the pointer remembered for it. -/
theorem mem_republishOps {a : AssertionSide} {clock : Nat → Nat} {i : Nat} {keys : List String}
    {op : StoreOp} (h : op ∈ a.republishOps clock i keys) :
    ∃ hex ∈ keys, ∃ target j, parseKey hex = some target ∧
      op = .putAt (a.republishedRecord (a.providers.announcedCollateral hex) target
        (clock (2 * j))) (clock (2 * j + 1)) := by
  induction keys generalizing i with
  | nil => cases h
  | cons hex rest ih =>
    unfold AssertionSide.republishOps at h
    have htail : op ∈ a.republishOps clock (i + 1) rest →
        ∃ hex' ∈ hex :: rest, ∃ target j, parseKey hex' = some target ∧
          op = .putAt (a.republishedRecord (a.providers.announcedCollateral hex') target
            (clock (2 * j))) (clock (2 * j + 1)) := by
      intro hmem
      obtain ⟨hex', hhex, hrest⟩ := ih hmem
      exact ⟨hex', List.mem_cons_of_mem hex hhex, hrest⟩
    cases hparse : parseKey hex with
    | none =>
      rw [hparse] at h
      exact htail h
    | some target =>
      rw [hparse] at h
      rcases List.mem_cons.mp h with rfl | h
      · exact ⟨hex, List.mem_cons_self, target, i, hparse, rfl⟩
      · exact htail h

/-- Only an announce marks a key, the key it announces, with the pointer
it was given. -/
theorem marks_storeOps {a : AssertionSide} {input : Input} {op : StoreOp}
    (h : op ∈ a.storeOps input) {hex : String} (hmark : ProviderStore.marks op = some hex) :
    ∃ content coin, input.op = .announceProviderWithCollateral content coin ∧
      hex = content.toKey.toHex ∧ op = .markAnnouncedWithCollateral hex (coin.map toHex64) := by
  unfold AssertionSide.storeOps at h
  simp only at h
  split at h
  · rename_i content coin hop
    rcases List.mem_pair.mp h with rfl | rfl
    · cases hmark
    · cases hmark
      refine ⟨content, coin, hop, rfl, ?_⟩
      cases coin <;> rfl
  · cases List.mem_singleton.mp h
    cases hmark
  · cases List.mem_singleton.mp h
    cases hmark
  · cases List.mem_singleton.mp h
    cases hmark
  · rcases List.mem_pair.mp h with rfl | rfl <;> cases hmark
  · obtain ⟨_, -, _, _, -, rfl⟩ := mem_republishOps h
    cases hmark
  · cases List.mem_singleton.mp h
    cases hmark
  · split at h
    · cases h
    · cases List.mem_singleton.mp h
      cases hmark
  · cases h

/-- Which records an operation puts into the authoritative store, and at
which reading of its clock. -/
inductive PutBy (a : AssertionSide) (input : Input) : ProviderRecord → Nat → Prop
  | announce (content : ContentId) (coin : Option Bytes32)
      (hop : input.op = .announceProviderWithCollateral content coin) :
      PutBy a input (a.announcedRecord content coin (input.clock 0)) (input.clock 1)
  | ingest (record : ProviderRecord) (hop : input.op = .ingestVerifiedProvider record) :
      PutBy a input (a.clampedRecord record (input.clock 0)) (input.clock 0)
  | republish (hex : String) (target : Key) (i : Nat) (hop : input.op = .republish)
      (hlisted : hex ∈ a.providers.localAnnouncements) (hparse : parseKey hex = some target) :
      PutBy a input (a.republishedRecord (a.providers.announcedCollateral hex) target
        (input.clock (2 * i))) (input.clock (2 * i + 1))
  | serve (caller : Option Contact) (record : ProviderRecord)
      (hop : input.op = .handleRequestFrom caller (.addProvider record))
      (hown : DhtService.namesAnother (caller.map Contact.peerId) record = false) :
      PutBy a input (a.clampedRecord record (input.clock 0)) (input.clock 0)

theorem mem_storeOps_putAt {a : AssertionSide} {input : Input} {r : ProviderRecord} {now : Nat}
    (h : StoreOp.putAt r now ∈ a.storeOps input) : PutBy a input r now := by
  unfold AssertionSide.storeOps at h
  simp only at h
  split at h <;> rename_i hop
  · rcases List.mem_pair.mp h with heq | heq
    · cases heq
      exact .announce _ _ hop
    · cases heq
  · cases List.mem_singleton.mp h
  · cases List.mem_singleton.mp h
    exact .ingest _ hop
  · cases List.mem_singleton.mp h
  · rcases List.mem_pair.mp h with heq | heq <;> cases heq
  · obtain ⟨hex, hmem, target, i, hparse, heq⟩ := mem_republishOps h
    cases heq
    have hlisted : hex ∈ a.providers.localAnnouncements :=
      (input.keyOrder_perm a.providers.localAnnouncements).mem_iff.mp hmem
    exact .republish hex target i hop hlisted hparse
  · cases List.mem_singleton.mp h
  · split at h
    · cases h
    · rename_i hallowed
      obtain ⟨-, hother⟩ := not_or.mp hallowed
      cases List.mem_singleton.mp h
      exact .serve _ _ hop (by simpa using hother)
  · cases h

theorem toNodeProfile_step {svc : DhtService} (h : svc.Valid) (input : Input) (world : World) :
    (step svc input world).1.toNodeProfile = svc.toNodeProfile := by
  rw [step_fst h.routed]

theorem providers_step {svc : DhtService} (h : svc.Valid) (input : Input) (world : World) :
    (step svc input world).1.providers =
      exec Store.step svc.providers (svc.assertionSide.storeOps input) := by
  rw [step_fst h.routed]

/-- What is so of the stored records and of the records an operation puts
is so of the records stored after it. -/
theorem forall_stored_step {Q : ProviderRecord → Prop} {svc : DhtService} (hvalid : svc.Valid)
    {input : Input} {world : World}
    (h : ∀ k x e, svc.providers.entry k x = some e → Q e.record)
    (hput : ∀ r now, StoreOp.putAt r now ∈ svc.assertionSide.storeOps input → Q r) :
    ∀ k x e, (step svc input world).1.providers.entry k x = some e → Q e.record := by
  intro k x e he
  rw [providers_step hvalid] at he
  rcases ProviderStore.entry_exec_cases he with hold | ⟨r, now, hr, -, hrecord⟩
  · exact h k x e hold
  · rw [hrecord]
    exact hput r now hr

/-- The same of the discovery cache, where an operation puts what it makes
of records its lookup was told of. -/
theorem forall_cached_step {Q : ProviderRecord → Prop} {svc : DhtService} {input : Input}
    {world : World} (h : ∀ k x e, svc.discovered.entry k x = some e → Q e.record)
    (hput : ∀ q contentKey now entry, (world.swarms 0).Carries q →
      svc.cacheEntry contentKey now q.normalized = some entry → Q entry) :
    ∀ k x e, (step svc input world).1.discovered.entry k x = some e → Q e.record := by
  intro k x e he
  rw [discovered_step] at he
  rcases ProviderStore.entry_exec_cases he with hold | ⟨r, now, hr, -, hrecord⟩
  · exact h k x e hold
  · obtain ⟨content, -, hmem⟩ := mem_cacheOps_putAt hr
    obtain ⟨q, hq, entry, hentry, heq⟩ := mem_cachePuts hmem
    cases heq
    rw [hrecord]
    exact hput q _ _ _ (mem_providers_runLookup hq).1 hentry

theorem Valid.rerouted {svc : DhtService} (h : svc.Valid) {routing : RoutingTable}
    (hmoves : TableMoves svc.routing routing) : { svc with routing }.Valid where
  routed := Reach.invariant (Q := WellPlaced svc.localId svc.config.k)
    (fun _ op ht _ => wellPlaced_step ht op) hmoves h.routed
  providers := h.providers
  discovered := h.discovered
  announced := h.announced
  foreign := h.foreign

/-- Store operations that mark content keys only. -/
theorem Valid.stored {svc : DhtService} (h : svc.Valid) (ops : List StoreOp)
    (hmarks : ∀ op ∈ ops, ∀ hex, ProviderStore.marks op = some hex → ∃ key : Key, hex = key.toHex) :
    { svc with providers := exec Store.step svc.providers ops }.Valid where
  routed := h.routed
  providers := ProviderStore.wellFormed_exec h.providers ops
  discovered := h.discovered
  announced := by
    refine exec_invariant_mem
      (Q := fun s : ProviderStore => ∀ hex ∈ s.localAnnouncements, ∃ key : Key, hex = key.toHex)
      (fun s op hop hs hex hmem => ?_) h.announced
    rcases ProviderStore.mem_localAnnouncements_step hmem with hold | hmark
    · exact hs hex hold
    · exact hmarks op hop hex hmark
  foreign := h.foreign

/-- Cache operations that put other nodes' records only. -/
theorem Valid.cached {svc : DhtService} (h : svc.Valid) (ops : List StoreOp)
    (hputs : ∀ r now, StoreOp.putAt r now ∈ ops → r.providerPeerId ≠ svc.selfId) :
    { svc with discovered := exec Store.step svc.discovered ops }.Valid where
  routed := h.routed
  providers := h.providers
  discovered := ProviderStore.wellFormed_exec h.discovered ops
  announced := h.announced
  foreign := by
    refine exec_invariant_mem
      (Q := fun s : ProviderStore => ∀ k x e, s.entry k x = some e → x ≠ svc.selfId)
      (fun s op hop hs k x e he => ?_) h.foreign
    rcases ProviderStore.entry_step_cases he with ⟨hold, -⟩ |
      ⟨_, r, now, rfl, -, rfl, -, -, -⟩ | ⟨r, now, rfl, -, rfl, -, -, -⟩
    · exact hs k x e hold
    · exact hputs r now hop
    · exact hputs r now hop

theorem valid_step {svc : DhtService} (h : svc.Valid) (input : Input) (world : World) :
    (step svc input world).1.Valid := by
  have hcached : ∀ r now, StoreOp.putAt r now ∈ svc.cacheOps input world →
      r.providerPeerId ≠ svc.selfId := by
    intro r now hop
    obtain ⟨content, -, hmem⟩ := mem_cacheOps_putAt hop
    obtain ⟨q, -, entry, hentry, heq⟩ := mem_cachePuts hmem
    cases heq
    obtain ⟨-, hid, hself, -⟩ := cacheEntry_spec hentry
    rwa [hid]
  have hmarked : ∀ op ∈ svc.assertionSide.storeOps input, ∀ hex,
      ProviderStore.marks op = some hex → ∃ key : Key, hex = key.toHex := by
    intro op hop hex hmark
    obtain ⟨content, -, -, hkey, -⟩ := marks_storeOps hop hmark
    exact ⟨content.toKey, hkey⟩
  have hmoved := ((h.rerouted (tableMoves_step svc input world)).stored _ hmarked).cached _ hcached
  rw [step_fst h.routed]
  exact hmoved

end DhtService

end DigDht.Service
