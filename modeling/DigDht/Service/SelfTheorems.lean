/-
DigDht.Service.SelfTheorems — this node among what it is told.

§1 is who is asked: whatever holds of the contacts in the table and of
those the step is told of holds of every contact an RPC is sent to. The
table has no place for this node, but a lookup merges whom it is told of
and asks him. §2 is the run: a node that is told of others only asks
others only (`never_asks_self`). §3 is the discovery cache, which
compares a provider's text with this node's own: a record naming this
node stays out in that one spelling (`never_caches_self`).
-/
import DigDht.Lookup.BoundTheorems
import DigDht.Service.IdentityTheorems
import DigDht.Service.RetractTheorems
import DigDht.Store.LivenessTheorems

namespace DigDht.Service

open Keyspace Record Routing Lookup Store Wire Content Runs

section Self

variable [Deps]

/-! ## §1 Who is asked -/

namespace DhtService

section Asked

variable {K : Contact → Prop} {svc : DhtService} {swarm : Swarm}

theorem asked_runLookup {target : Key} {seeds : List Contact} {stop : Bool}
    (hseeds : ∀ c ∈ seeds, K c) (hswarm : ∀ c, swarm.Names c → K c) :
    ∀ y ∈ lookupRequests target (svc.runLookup swarm target seeds stop).1, K y.1 := by
  intro y hy
  obtain ⟨x, hx, rfl⟩ := List.mem_map.mp hy
  rcases mem_heard_runLookup (LookupParams.mem_heard_of_asked _ _ hx) with hseed | htold
  · exact hseeds _ hseed
  · exact hswarm _ htold

variable (htable : ∀ c ∈ svc.routing.contacts, K c) (hswarm : ∀ c, swarm.Names c → K c)

include htable

theorem known_seedContacts (target : Key) : ∀ c ∈ svc.seedContacts target, K c :=
  fun c hc => htable c (RoutingTable.mem_of_mem_closest hc)

include hswarm

/-- A search asks and returns such contacts. -/
theorem asked_searchAndAbsorb {target : Key} {svc' : DhtService} {w : Walk}
    (h : svc.searchAndAbsorb swarm target = (svc', some w)) :
    (∀ y ∈ lookupRequests target w, K y.1) ∧ ∀ c ∈ (w.result svc'.config.k).closest, K c := by
  unfold searchAndAbsorb at h
  simp only at h
  split at h
  · cases h
  · cases h
    refine ⟨asked_runLookup (known_seedContacts htable target) hswarm, ?_⟩
    intro c hc
    rcases mem_closest_runLookup hc with hseed | htold
    · exact known_seedContacts htable target c hseed
    · exact hswarm c htold

theorem asked_publish (target : Key) (record : ProviderRecord) :
    ∀ y ∈ (svc.publish swarm target record).2.2, K y.1 := by
  intro y hy
  unfold publish at hy
  split at hy
  · cases hy
  · rename_i w heq
    obtain ⟨hasked, hclosest⟩ := asked_searchAndAbsorb htable hswarm heq
    rcases List.mem_append.mp hy with hy | hy
    · exact hasked y hy
    · obtain ⟨c, hc, rfl⟩ := List.mem_map.mp hy
      exact hclosest c (List.mem_of_mem_filter hc)

theorem asked_findProviders (clock : Nat → Nat) (content : ContentId) :
    ∀ y ∈ (svc.findProviders clock swarm content).2.2, K y.1 := by
  intro y hy
  unfold findProviders at hy
  simp only at hy
  split at hy
  · cases hy
  · split at hy
    · cases hy
    · exact asked_runLookup (known_seedContacts htable _) hswarm y hy

end Asked

section Loops

variable {K : Contact → Prop} (hcap : ∀ c, K c → K c.capped) {swarms : Nat → Swarm}
  (hswarms : ∀ i c, (swarms i).Names c → K c)

include hcap hswarms

theorem asked_refreshFrom {svc : DhtService} (random : Nat → Bytes32) (i : Nat)
    (indices : List (Fin 256)) (htable : ∀ c ∈ svc.routing.contacts, K c) :
    ∀ y ∈ (svc.refreshFrom random swarms i indices).2, K y.1 := by
  induction indices generalizing svc i with
  | nil => exact nofun
  | cons idx rest ih =>
    intro y hy
    have hmove :=
      svc.moves_searchAndAbsorb (svc.randomKeyInBucket idx (random i)) htable (hswarms i)
    unfold refreshFrom at hy
    rcases List.mem_append.mp hy with hy | hy
    · cases hsearch : svc.searchAndAbsorb (swarms i) (svc.randomKeyInBucket idx (random i)) with
      | mk svc' found =>
        rw [hsearch] at hy
        cases found with
        | none => cases hy
        | some w => exact (asked_searchAndAbsorb htable (hswarms i) hsearch).1 y hy
    · exact ih (i + 1) (hmove.known hcap htable) y hy

theorem asked_republishFrom {svc : DhtService} (clock : Nat → Nat) (i : Nat)
    (keys : List String) (htable : ∀ c ∈ svc.routing.contacts, K c) :
    ∀ y ∈ (svc.republishFrom clock swarms i keys).2.2, K y.1 := by
  induction keys generalizing svc i with
  | nil => exact nofun
  | cons hex rest ih =>
    intro y hy
    unfold republishFrom at hy
    cases hparse : parseKey hex with
    | none =>
      rw [hparse] at hy
      exact ih (i + 1) htable y hy
    | some target =>
      rw [hparse] at hy
      let record := svc.republishedRecord (svc.providers.announcedCollateral hex) target
        (clock (2 * i))
      let stored : DhtService :=
        { svc with providers := (svc.providers.putAt record (clock (2 * i + 1))).1 }
      have hmove : Moves K svc.routing (stored.publish (swarms i) target record).1.routing := by
        rw [publish_fst]
        exact stored.moves_searchAndAbsorb target htable (hswarms i)
      rcases List.mem_append.mp hy with hy | hy
      · have hstored : ∀ c ∈ stored.routing.contacts, K c := htable
        exact asked_publish hstored (hswarms i) target record y hy
      · exact ih (i + 1) (hmove.known hcap htable) y hy

end Loops

/-- Every RPC of a step but an explicit ping goes to a contact of the
table, a bootstrap peer, or one the step is told of. -/
theorem asked_step {K : Contact → Prop} (hcap : ∀ c, K c → K c.capped) {svc : DhtService}
    {input : Input} {world : World} (htable : ∀ c ∈ svc.routing.contacts, K c)
    (hpeers : ∀ peers, input.op = .bootstrap peers → ∀ p ∈ peers, K p.toContact)
    (hswarms : ∀ i c, (world.swarms i).Names c → K c) :
    ∀ y ∈ (step svc input world).2.sent, K y.1 ∨ input.op = .ping y.1 := by
  intro y hy
  obtain ⟨op, clock, order, hperm⟩ := input
  cases op with
  | bootstrap peers =>
    left
    simp only [step, bootstrap] at hy
    split at hy
    · cases hy
    · exact asked_runLookup (List.forall_mem_map.mpr (hpeers peers rfl)) (hswarms 0) y hy
  | findNode peerId =>
    left
    simp only [step, findNode] at hy
    split at hy
    · cases hy
    · rename_i heq
      exact (asked_searchAndAbsorb htable (hswarms 0) heq).1 y hy
  | findProviders content =>
    exact Or.inl (asked_findProviders htable (hswarms 0) clock content y hy)
  | holdersOf content =>
    exact Or.inl (asked_findProviders htable (hswarms 0) clock content y hy)
  | refreshBuckets =>
    exact Or.inl (asked_refreshFrom hcap hswarms world.random 0 _ htable y hy)
  | announceProviderWithCollateral content coin =>
    left
    simp only [step, announceProviderWithCollateral] at hy
    refine asked_publish ?_ (hswarms 0) _ _ y hy
    exact htable
  | republish => exact Or.inl (asked_republishFrom hcap hswarms clock 0 _ htable y hy)
  | ping peer =>
    right
    cases List.mem_singleton.mp hy
    rfl
  | addPeer peerId addresses =>
    simp only [step] at hy
    split at hy <;> cases hy
  | removePeer _ => cases hy
  | cachedProviders _ => cases hy
  | forgetDiscovered _ => cases hy
  | withdrawProvider _ => cases hy
  | ingestVerifiedProvider _ => cases hy
  | removeProviderRecord _ _ => cases hy
  | providerSnapshot _ => cases hy
  | retractOwnProvider _ => cases hy
  | gc => cases hy
  | handleRequestFrom _ _ => cases hy
  | knownClosest _ => cases hy
  | routingLen => cases hy

end DhtService

/-! ## §2 Asking others only -/

/-- The contact is this node, in whatever spelling. -/
def NodeProfile.IsSelf (node : NodeProfile) (c : Contact) : Prop :=
  c.peer = some node.localId

instance (node : NodeProfile) (c : Contact) : Decidable (node.IsSelf c) :=
  inferInstanceAs (Decidable (_ = _))

theorem NodeProfile.isSelf_of_text [LawfulPeerIdHex] {node : NodeProfile} {c : Contact}
    (h : c.peerId = node.selfId) : node.IsSelf c := by
  rw [IsSelf, Contact.peer, h]
  exact LawfulPeerIdHex.fromHex_toHex node.localId

namespace DhtService

/-- The table has no place for this node. -/
theorem Valid.table_others {svc : DhtService} (h : svc.Valid) :
    ∀ c ∈ svc.routing.contacts, ¬svc.IsSelf c := by
  intro c hc hself
  obtain ⟨i, hi⟩ := RoutingTable.mem_contacts.mp hc
  have hplaced := h.routed.placed i c hi
  have hkey : c.key = some svc.routing.localKey := by
    rw [Contact.key, hself, h.routed.localKey_eq]
    rfl
  rw [RoutingTable.bucketOf, hkey, Option.bind_some, RoutingTable.bucketFor,
    Key.bucketIndex_distance_self] at hplaced
  cases hplaced

/-- No answer of the step names this node, and it is not given this node
to bootstrap from. -/
structure ToldOfOthers (svc : DhtService) (x : Input × World) : Prop where
  answers : ∀ i c, (x.2.swarms i).Names c → ¬svc.IsSelf c
  peers : ∀ peers, x.1.op = .bootstrap peers → ∀ p ∈ peers, ¬svc.IsSelf p.toContact

/-- The step sends this node nothing, unless told to ping it, and its
reply does not list this node among the contacts. -/
structure AsksOthers (svc : DhtService) (x : Input × World) : Prop where
  sent : ∀ y ∈ (step svc x.1 x.2).2.sent, svc.IsSelf y.1 → x.1.op = .ping y.1
  found : ∀ cs, (step svc x.1 x.2).2.reply = .contacts cs → ∀ c ∈ cs, ¬svc.IsSelf c

theorem asksOthers_step {svc : DhtService} (h : svc.Valid) {x : Input × World}
    (hx : svc.ToldOfOthers x) : svc.AsksOthers x := by
  constructor
  · intro y hy hself
    have hasked := asked_step (K := fun c => ¬svc.IsSelf c) (fun _ hc => hc) h.table_others
      hx.peers hx.answers y hy
    exact hasked.resolve_left (not_not.mpr hself)
  · intro cs hcs c hc
    have hreply := replies_step svc x.1 x.2
    rw [hcs] at hreply
    cases hreply with
    | plain hplain => exact hplain.elim
    | known target => exact h.table_others c (RoutingTable.mem_of_mem_closest hc)
    | found peerId hop =>
      rcases mem_closest_runLookup hc with hseed | htold
      · exact h.table_others c (RoutingTable.mem_of_mem_closest hseed)
      · exact hx.answers 0 c htold

/-- **A node never asks itself** in a run in which it is told of others
only. -/
theorem never_asks_self (localId : PeerId) (addresses : List CandidateAddr) (config : DhtConfig)
    (run : List (Input × World))
    (h : EachStep stepState ToldOfOthers (new localId addresses config) run) :
    EachStep stepState AsksOthers (new localId addresses config) run :=
  h.imp (I := Valid) (fun _ x hs _ => valid_step hs x.1 x.2)
    (fun _ _ hs hx => asksOthers_step hs hx) (valid_new localId addresses config)

/-! ## §3 What is not cached -/

/-- The record names this node, in whatever spelling. -/
def Echoes (svc : DhtService) (r : ProviderRecord) : Prop :=
  hex64ToBytes r.providerPeerId = some svc.localId.bytes

instance (svc : DhtService) (r : ProviderRecord) : Decidable (svc.Echoes r) :=
  inferInstanceAs (Decidable (_ = _))

/-- A record for the asked key that names this node and comes with an
answer is written as this node writes itself. -/
def EchoedAsWritten (svc : DhtService) (x : Input × World) : Prop :=
  ∀ content, x.1.op.AsksFor content → ∀ r, (x.2.swarms 0).Carries r →
    r.contentKey = content.toKey.toHex → svc.Echoes r → r.providerPeerId = svc.selfId

/-- The cache has no record naming this node. -/
def CachesOthers (svc : DhtService) : Prop :=
  ∀ k x e, svc.discovered.entry k x = some e → ¬svc.Echoes e.record

/-- Answers that only echo this node leave the cache as it was, so that it
has no answer for the next call either. -/
structure EchoIgnored (svc : DhtService) (x : Input × World) (content : ContentId) : Prop where
  unchanged : (stepState svc x).discovered = svc.discovered
  walks : svc.discovered.get content.toKey.toHex (x.1.clock 0) = [] → ∀ now, x.1.clock 0 ≤ now →
    (stepState svc x).discovered.get content.toKey.toHex now = []

/-- What a step puts into the cache was carried by an answer for the key
it asks about. -/
theorem carried_of_cacheOps {svc : DhtService} {x : Input × World} {entry : ProviderRecord}
    {now : Nat} (h : StoreOp.putAt entry now ∈ svc.cacheOps x.1 x.2) :
    ∃ content, x.1.op.AsksFor content ∧ ∃ r, (x.2.swarms 0).Carries r ∧
      r.contentKey = content.toKey.toHex ∧ entry.providerPeerId = r.providerPeerId ∧
      r.providerPeerId ≠ svc.selfId := by
  obtain ⟨content, hop, hput⟩ := mem_cacheOps_putAt h
  obtain ⟨r, hr, entry', hentry, heq⟩ := mem_cachePuts hput
  cases heq
  obtain ⟨hcarried, hkey⟩ := mem_providers_runLookup hr
  obtain ⟨-, hid, hforeign, -⟩ := cacheEntry_spec hentry
  exact ⟨content, hop, r, hcarried, hkey, hid, hforeign⟩

theorem cachesOthers_step {svc : DhtService} (hvalid : svc.Valid) (h : svc.CachesOthers)
    {x : Input × World} (hx : svc.EchoedAsWritten x) : (stepState svc x).CachesOthers := by
  intro k p e he
  have hself : (stepState svc x).localId = svc.localId :=
    congrArg NodeProfile.localId (toNodeProfile_step hvalid x.1 x.2)
  rw [Echoes, hself]
  rw [stepState, discovered_step] at he
  rcases ProviderStore.entry_exec_cases he with hold | ⟨entry, now, hput, -, hrecord⟩
  · exact h k p e hold
  · obtain ⟨content, hop, r, hcarried, hkey, hid, hforeign⟩ := carried_of_cacheOps hput
    rw [hrecord, hid]
    intro hecho
    exact hforeign (hx content hop r hcarried hkey hecho)

theorem echoIgnored_step {svc : DhtService} {x : Input × World} (hx : svc.EchoedAsWritten x)
    {content : ContentId} (hop : x.1.op.AsksFor content)
    (hecho : ∀ r, (x.2.swarms 0).Carries r → r.contentKey = content.toKey.toHex → svc.Echoes r) :
    svc.EchoIgnored x content := by
  have hputs : svc.cachePuts x.1.clock (x.2.swarms 0) content = [] := by
    refine List.eq_nil_iff_forall_not_mem.mpr ?_
    intro op hput
    obtain ⟨r, hr, entry, hentry, -⟩ := mem_cachePuts hput
    obtain ⟨hcarried, hkey⟩ := mem_providers_runLookup hr
    obtain ⟨-, -, hforeign, -⟩ := cacheEntry_spec hentry
    exact hforeign (hx content hop r hcarried hkey (hecho r hcarried hkey))
  have hops : svc.cacheOps x.1 x.2 = [] := by
    unfold cacheOps
    rcases hop with hop | hop <;> rw [hop] <;> exact hputs
  have hunchanged : (stepState svc x).discovered = svc.discovered := by
    rw [stepState, discovered_step, hops]
    rfl
  refine ⟨hunchanged, ?_⟩
  intro hnone now hnow
  rw [hunchanged]
  refine List.eq_nil_iff_forall_not_mem.mpr ?_
  intro r hr
  have hlater : r ∈ svc.discovered.get content.toKey.toHex (x.1.clock 0) :=
    ProviderStore.mem_get_of_le hnow hr
  rw [hnone] at hlater
  cases hlater

/-- **A record naming this node is never cached** in a run in which its
own id comes back as it writes it, and answers that hold nothing else
are no answers for the next call. -/
theorem never_caches_self (localId : PeerId) (addresses : List CandidateAddr) (config : DhtConfig)
    (run : List (Input × World))
    (h : EachStep stepState EchoedAsWritten (new localId addresses config) run) :
    Always stepState CachesOthers (new localId addresses config) run ∧
      EachStep stepState (fun svc x => ∀ content, x.1.op.AsksFor content →
        (∀ r, (x.2.swarms 0).Carries r → r.contentKey = content.toKey.toHex → svc.Echoes r) →
          svc.EchoIgnored x content) (new localId addresses config) run := by
  have hstart : (new localId addresses config).Valid ∧ (new localId addresses config).CachesOthers
      := by
    refine ⟨valid_new localId addresses config, ?_⟩
    intro k p e he
    simp [new, ProviderStore.withLimits, ProviderStore.entry] at he
  have hstep : ∀ svc (x : Input × World), svc.Valid ∧ svc.CachesOthers → svc.EchoedAsWritten x →
      (stepState svc x).Valid ∧ (stepState svc x).CachesOthers := fun svc x hs hx =>
    ⟨valid_step hs.1 x.1 x.2, cachesOthers_step hs.1 hs.2 hx⟩
  constructor
  · exact (always_of_eachStep hstep hstart h).imp fun _ hs => hs.2
  · exact h.imp hstep (fun _ _ _ hx _ hop hecho => echoIgnored_step hx hop hecho) hstart

end DhtService

end Self

/-! ### Told of itself -/

section Samples

attribute [local instance] sampleDeps

/-- A node that has met peer 211 looks for peer 1. -/
def findRun (told : Contact) : List (Input × World) :=
  metRun ++ [(.at 100 (.findNode (samplePeer 1)), tellingWorld (.nodes [told]))]

theorem asks_others_only :
    EachStep stepState DhtService.AsksOthers (.new (samplePeer 9) [] .default)
      (findRun (sampleContact 171)) := by
  refine DhtService.never_asks_self (samplePeer 9) [] .default _ ⟨?_, ?_, trivial⟩
  · exact ⟨fun i c hc => (List.not_mem_nil (names_tellingWorld hc)).elim, nofun⟩
  · refine ⟨?_, nofun⟩
    intro i c hc
    rw [List.mem_singleton.mp (names_tellingWorld hc)]
    decide +kernel

/-- A peer that knows the caller tells it of itself: the node asks itself
and finds itself. -/
theorem asks_itself :
    let met := exec stepState (DhtService.new (samplePeer 9) [] .default) metRun
    let asked := step met (.at 100 (.findNode (samplePeer 1)))
      (tellingWorld (.nodes [sampleContact 9]))
    met.IsSelf (sampleContact 9) ∧
      (sampleContact 9, .findProviders (Key.fromPeerId (samplePeer 1)).toHex) ∈ asked.2.sent ∧
      asked.2.reply = .contacts [sampleContact 9, sampleContact 211] := by
  intro met asked
  have hself : met.selfId = (sampleContact 9).peerId := by decide +kernel
  refine ⟨NodeProfile.isSelf_of_text hself.symm, ?_, ?_⟩
  · decide +kernel
  · decide +kernel

/-- A node that has met peer 211 asks for the content. -/
def echoRun (told : ProviderRecord) : List (Input × World) :=
  metRun ++ [(.at 100 (.findProviders sampleContent), tellingWorld (.providers [told] []))]

theorem own_text_not_cached :
    Always stepState DhtService.CachesOthers (.new (samplePeer 171) [] .default)
        (echoRun (sampleRecord 171 200)) ∧
      EachStep stepState (fun svc x => ∀ content, x.1.op.AsksFor content →
        (∀ r, (x.2.swarms 0).Carries r → r.contentKey = content.toKey.toHex → svc.Echoes r) →
          svc.EchoIgnored x content) (.new (samplePeer 171) [] .default)
        (echoRun (sampleRecord 171 200)) := by
  refine DhtService.never_caches_self (samplePeer 171) [] .default _ ⟨?_, ?_, trivial⟩
  · rintro content (hop | hop) <;> cases hop
  · intro content _ r hr _ _
    rw [List.mem_singleton.mp (carries_tellingWorld hr)]
    decide +kernel

/-- Its id in capitals is cached, and the next call asks nobody. -/
theorem own_capitals_cached :
    let start := DhtService.new (samplePeer 171) [] .default
    let met := exec stepState start metRun
    let asked := exec stepState start (echoRun shoutedRecord)
    let again := step asked (.at 101 (.findProviders sampleContent)) (tellingWorld (.nodes []))
    met.Echoes shoutedRecord ∧
      (step met (.at 100 (.findProviders sampleContent))
        (tellingWorld (.providers [shoutedRecord] []))).2.sent ≠ [] ∧
      asked.discovered.get sampleContent.toKey.toHex 101 = [shoutedRecord] ∧
      again.2.sent = [] := by
  decide +kernel

end Samples

end DigDht.Service
