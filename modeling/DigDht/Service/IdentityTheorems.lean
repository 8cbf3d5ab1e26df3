/-
DigDht.Service.IdentityTheorems — one identity, one entry.

Buckets and distances go by the decoded key; presence, deduplication, the
queried mark and the stores go by the text. The two agree as long as
every identity keeps to one spelling. `spell` is that spelling: in every
run whose steps take in and make no text that differs from it
(`OneSpelling`), no list the node holds or hands out names an identity
twice (`one_entry_each`). A peer that spells one identity in two cases
gets it two entries (`two_spellings_two_entries`).

§1 is about lists, §2 the invariant, §3 what the node hands out.
-/
import DigDht.Routing.DistanceTheorems
import DigDht.Service.BindingTheorems

namespace DigDht.Service

open Keyspace Record Routing Lookup Store Wire Content Runs

section Identities

variable [Deps]

/-! ## §1 Lists without a second entry -/

/-- No two of the contacts decode to one key. -/
def DistinctKeys (cs : List Contact) : Prop :=
  (cs.filterMap Contact.key).Nodup

/-- No two of the records decode to one holder. -/
def DistinctHolders (rs : List ProviderRecord) : Prop :=
  (rs.filterMap ProviderRecord.provider).Nodup

instance (cs : List Contact) : Decidable (DistinctKeys cs) :=
  inferInstanceAs (Decidable (List.Nodup _))

instance (rs : List ProviderRecord) : Decidable (DistinctHolders rs) :=
  inferInstanceAs (Decidable (List.Nodup _))

omit [Deps] in
/-- If equal images under `f` come from equal texts, distinct texts give
distinct images. -/
theorem nodup_filterMap {α β : Type} {f : α → Option β} {text : α → String} {l : List α}
    (hnodup : (l.map text).Nodup)
    (hf : ∀ a ∈ l, ∀ b ∈ l, ∀ y, f a = some y → f b = some y → text a = text b) :
    (l.filterMap f).Nodup := by
  refine List.pairwise_filterMap.mpr ((List.pairwise_map.mp hnodup).imp_of_mem ?_)
  intro a b ha hb hne y hy y' hy' heq
  subst heq
  exact hne (hf a ha b hb y hy hy')

theorem fromHex_of_key {c : Contact} {key : Key} (h : c.key = some key) :
    Deps.fromHex c.peerId = some ⟨key.bytes⟩ := by
  obtain ⟨p, hp, rfl⟩ := Option.map_eq_some_iff.mp h
  exact hp

section Spellings

variable (spell : PeerId → String)

theorem distinctKeys_of_spelled {cs : List Contact} (hnodup : (cs.map Contact.peerId).Nodup)
    (hspelled : ∀ c ∈ cs, SpelledBy spell c.peerId) : DistinctKeys cs := by
  refine nodup_filterMap hnodup ?_
  intro a ha b hb key hka hkb
  exact (hspelled a ha).eq (hspelled b hb) (fromHex_of_key hka) (fromHex_of_key hkb)

theorem distinctHolders_of_spelled {rs : List ProviderRecord}
    (hnodup : (rs.map ProviderRecord.providerPeerId).Nodup)
    (hspelled : ∀ r ∈ rs, SpelledBy spell r.providerPeerId) : DistinctHolders rs := by
  refine nodup_filterMap hnodup ?_
  intro a ha b hb p hpa hpb
  exact (hspelled a ha).eq (hspelled b hb) hpa hpb

end Spellings

omit [Deps] in
/-- The contacts a walk returns are distinct. -/
theorem nodup_walk_closest {w : Walk} (hw : Consistent w) (k : Nat) :
    ((w.result k).closest.map Contact.peerId).Nodup := by
  have hsub : (((w.shortlist.filter fun e => !e.failed).take k).map
      fun e => e.contact.peerId).Sublist (ids w.shortlist) :=
    ((List.take_sublist _ _).trans List.filter_sublist).map _
  simp only [Walk.result, List.map_map]
  exact hsub.nodup hw.nodup

/-! ## §2 One spelling -/

variable {spell : PeerId → String}

namespace DhtService

/-- A provider id an operation writes, is given or is told of. -/
inductive NamesProvider (svc : DhtService) (input : Input) (world : World) : String → Prop
  | announce (content : ContentId) (coin : Option Bytes32)
      (hop : input.op = .announceProviderWithCollateral content coin) :
      NamesProvider svc input world svc.selfId
  | republish (hop : input.op = .republish) : NamesProvider svc input world svc.selfId
  | ingest (record : ProviderRecord) (hop : input.op = .ingestVerifiedProvider record) :
      NamesProvider svc input world record.providerPeerId
  | serve (caller : Option Contact) (record : ProviderRecord)
      (hop : input.op = .handleRequestFrom caller (.addProvider record)) :
      NamesProvider svc input world record.providerPeerId
  | told (i : Nat) (record : ProviderRecord) (hr : (world.swarms i).Carries record) :
      NamesProvider svc input world record.providerPeerId

/-- Every id the step takes in or makes is spelled by `spell`. -/
structure OneSpelling (spell : PeerId → String) (svc : DhtService) (x : Input × World) : Prop where
  contacts : ∀ c, Hears x.1 x.2 c → SpelledBy spell c.peerId
  providers : ∀ id, NamesProvider svc x.1 x.2 id → SpelledBy spell id

/-- What such steps keep. -/
structure Spelled (spell : PeerId → String) (svc : DhtService) : Prop where
  valid : svc.Valid
  unique : Unique svc.routing
  table : ∀ c ∈ svc.routing.contacts, SpelledBy spell c.peerId
  stored : ∀ k x e, svc.providers.entry k x = some e → SpelledBy spell e.record.providerPeerId
  cached : ∀ k x e, svc.discovered.entry k x = some e → SpelledBy spell e.record.providerPeerId

variable (spell) in
theorem spelled_new (localId : PeerId) (addresses : List CandidateAddr) (config : DhtConfig) :
    (new localId addresses config).Spelled spell where
  valid := valid_new localId addresses config
  unique := by simp [Routing.Unique, new, KBucket.new]
  table := by simp [new]
  stored := by simp [new, ProviderStore.withLimits, ProviderStore.entry]
  cached := by simp [new, ProviderStore.withLimits, ProviderStore.entry]

/-- Inserts and removes keep the contacts of a bucket distinct. -/
theorem Moves.unique {K : Contact → Prop} {t t' : RoutingTable} (h : Moves K t t')
    (ht : Unique t) : Unique t' := by
  refine Reach.invariant (Q := Unique) ?_ h ht
  intro t op ht hop
  refine (unique_step_iff ht op).mpr ?_
  cases op with
  | insert c => trivial
  | replace lru candidate => exact hop.elim
  | remove x => trivial

/-- What a step puts into the authoritative store names a provider it
writes, is given or is told of. -/
theorem namesProvider_of_put {svc : DhtService} {input : Input} {world : World}
    {r : ProviderRecord} {now : Nat}
    (h : StoreOp.putAt r now ∈ svc.assertionSide.storeOps input) :
    NamesProvider svc input world r.providerPeerId := by
  cases mem_storeOps_putAt h with
  | announce content coin hop =>
    rw [NodeProfile.announcedRecord_eq]
    exact .announce content coin hop
  | ingest record hop => exact .ingest record hop
  | republish hex target i hop => exact .republish hop
  | serve caller record hop => exact .serve caller record hop

theorem spelled_step {svc : DhtService} (h : svc.Spelled spell) {x : Input × World}
    (hx : OneSpelling spell svc x) : (stepState svc x).Spelled spell := by
  have hmoves : Moves (fun c => SpelledBy spell c.peerId) svc.routing
      (stepState svc x).routing :=
    moves_step (fun _ hc => hc) h.table hx.contacts
  refine ⟨valid_step h.valid x.1 x.2, hmoves.unique h.unique,
    hmoves.known (fun _ hc => hc) h.table, ?_, ?_⟩
  · exact forall_stored_step (Q := fun r => SpelledBy spell r.providerPeerId) h.valid h.stored
      fun r now hput => hx.providers _ (namesProvider_of_put hput)
  · refine forall_cached_step (Q := fun r => SpelledBy spell r.providerPeerId) h.cached ?_
    intro q contentKey now entry hcarried hentry
    obtain ⟨-, hid, -⟩ := cacheEntry_spec hentry
    rw [hid]
    exact hx.providers _ (.told 0 q hcarried)

end DhtService

/-! ## §3 What the node hands out -/

/-- No list in the reply names an identity twice. -/
def Reply.OneEntryEach : Reply → Prop
  | .contacts cs => DistinctKeys cs
  | .records rs => DistinctHolders rs
  | .holders ps => ps.Nodup
  | .response (.nodes cs) => DistinctKeys cs
  | .response (.providers rs cs) => DistinctHolders rs ∧ DistinctKeys cs
  | _ => True

theorem Reply.OneEntryEach.of_plain {reply : Reply} (h : reply.Plain) : reply.OneEntryEach := by
  unfold Reply.OneEntryEach
  split <;> first | exact h.elim | trivial

namespace DhtService

theorem Spelled.distinct_table {svc : DhtService} (h : svc.Spelled spell) :
    DistinctKeys svc.routing.contacts :=
  distinctKeys_of_spelled spell ((nodup_contacts_iff h.valid.routed.placed).mpr h.unique) h.table

theorem Spelled.distinct_closest {svc : DhtService} (h : svc.Spelled spell) (target : Key) :
    DistinctKeys (svc.routing.closest target) :=
  distinctKeys_of_spelled spell
    (RoutingTable.nodup_closest h.valid.routed.key_isSome
      ((nodup_contacts_iff h.valid.routed.placed).mpr h.unique) target)
    fun c hc => h.table c (RoutingTable.mem_of_mem_closest hc)

/-- A lookup from contacts of one spelling. -/
theorem distinct_lookup {svc : DhtService} {swarm : Swarm} {target : Key} {seeds : List Contact}
    {stop : Bool} (hseeds : ∀ c ∈ seeds, SpelledBy spell c.peerId)
    (hswarm : ∀ c, swarm.Names c → SpelledBy spell c.peerId) :
    DistinctKeys ((svc.runLookup swarm target seeds stop).1.result svc.config.k).closest := by
  refine distinctKeys_of_spelled spell
    (nodup_walk_closest (runLookup_inv svc swarm target seeds stop).toConsistent _) ?_
  intro c hc
  rcases mem_closest_runLookup hc with hseed | htold
  · exact hseeds c hseed
  · exact hswarm c htold

/-- A read of a store. -/
theorem distinct_get {s : ProviderStore} (hs : s.WellFormed)
    (hspelled : ∀ k x e, s.entry k x = some e → SpelledBy spell e.record.providerPeerId)
    (k : String) (now : Nat) : DistinctHolders (s.get k now) := by
  refine distinctHolders_of_spelled spell (ProviderStore.nodup_get hs k now) ?_
  intro r hr
  obtain ⟨x, e, he, rfl, -⟩ := ProviderStore.mem_get hr
  exact hspelled k x e he

theorem Spelled.distinct_returned {svc : DhtService} (h : svc.Spelled spell)
    (clock : Nat → Nat) {swarm : Swarm} (content : ContentId)
    (hswarm : ∀ r, swarm.Carries r → SpelledBy spell r.providerPeerId) :
    DistinctHolders (svc.findProviders clock swarm content).2.1 := by
  refine distinctHolders_of_spelled spell (nodup_returned h.valid clock swarm content) ?_
  intro r hr
  obtain ⟨-, hlocal | hcached | ⟨q, hq, rfl⟩⟩ := mem_returned hr
  · obtain ⟨x, e, he, rfl, -⟩ := ProviderStore.mem_get hlocal
    exact h.stored _ x e he
  · obtain ⟨x, e, he, rfl, -⟩ := ProviderStore.mem_get hcached
    exact h.cached _ x e he
  · exact hswarm q (mem_providers_runLookup hq).1

/-- Learning a caller of one spelling keeps what is kept. -/
theorem Spelled.learn {svc svc' : DhtService} (h : svc.Spelled spell) {caller : Option Contact}
    (hcaller : ∀ c ∈ caller, SpelledBy spell c.peerId)
    (hlearn : svc.learnCaller caller = some svc') : svc'.Spelled spell := by
  have hmoves : Moves (fun c => SpelledBy spell c.peerId) svc.routing svc'.routing :=
    moves_learnCaller hcaller hlearn
  obtain ⟨routing, rfl⟩ := rerouted_learnCaller hlearn
  exact ⟨h.valid.rerouted hmoves.capped, hmoves.unique h.unique,
    hmoves.known (fun _ hc => hc) h.table, h.stored, h.cached⟩

theorem Spelled.reply {svc : DhtService} (h : svc.Spelled spell) {x : Input × World}
    (hx : OneSpelling spell svc x) {reply : Reply} (hreply : Replies svc x.1 x.2 reply) :
    reply.OneEntryEach := by
  have hcarries : ∀ r, (x.2.swarms 0).Carries r → SpelledBy spell r.providerPeerId :=
    fun r hr => hx.providers _ (.told 0 r hr)
  have hlearnt : ∀ {caller request svc'}, x.1.op = .handleRequestFrom caller request →
      svc.learnCaller caller = some svc' → svc'.Spelled spell := by
    intro caller request svc' hop hlearn
    refine h.learn ?_ hlearn
    intro c hc
    cases hc
    exact hx.contacts c (.caller c request hop)
  cases hreply with
  | plain hplain => exact .of_plain hplain
  | known target => exact h.distinct_closest target
  | found peerId hop =>
    refine distinct_lookup ?_ fun c hc => hx.contacts c (.told 0 c hc)
    exact fun c hc => h.table c (RoutingTable.mem_of_mem_closest hc)
  | cached content => exact distinct_get h.valid.discovered h.cached _ _
  | returned content => exact h.distinct_returned _ content hcarries
  | holders content => exact h.distinct_returned _ content hcarries
  | nodes hop hlearn key => exact (hlearnt hop hlearn).distinct_closest key
  | providers hop hlearn key =>
    have h' := hlearnt hop hlearn
    exact ⟨distinct_get h'.valid.providers h'.stored _ _, h'.distinct_closest key⟩

/-- The table, and what it answers with. -/
structure OneEntry (svc : DhtService) : Prop where
  table : DistinctKeys svc.routing.contacts
  closest : ∀ target, DistinctKeys (svc.routing.closest target)

/-- The reply of a step, and every lookup it can run. -/
structure HandsOutOnce (spell : PeerId → String) (svc : DhtService) (x : Input × World) :
    Prop where
  reply : (step svc x.1 x.2).2.reply.OneEntryEach
  lookup : ∀ i target seeds stop, (∀ c ∈ seeds, SpelledBy spell c.peerId) →
    DistinctKeys ((svc.runLookup (x.2.swarms i) target seeds stop).1.result svc.config.k).closest

/-- **One identity, one entry.** In a run whose steps keep to one spelling
for each identity, the table and its closest contacts have distinct keys
in every state; in every step the lookups have distinct keys and the
lists of providers distinct holders. -/
theorem one_entry_each (spell : PeerId → String) (localId : PeerId)
    (addresses : List CandidateAddr) (config : DhtConfig) (run : List (Input × World))
    (h : EachStep stepState (OneSpelling spell) (new localId addresses config) run) :
    Always stepState OneEntry (new localId addresses config) run ∧
      EachStep stepState (HandsOutOnce spell) (new localId addresses config) run := by
  have hstart := spelled_new spell localId addresses config
  have hstep : ∀ svc x, Spelled spell svc → OneSpelling spell svc x →
      Spelled spell (stepState svc x) := fun _ _ hs hx => spelled_step hs hx
  constructor
  · refine (always_of_eachStep hstep hstart h).imp ?_
    exact fun svc hs => ⟨hs.distinct_table, hs.distinct_closest⟩
  · refine h.imp hstep ?_ hstart
    intro svc x hs hx
    exact ⟨hs.reply hx (replies_step svc x.1 x.2), fun i _ _ _ hseeds =>
      distinct_lookup hseeds fun c hc => hx.contacts c (.told i c hc)⟩

end DhtService

end Identities

/-! ### Spelled once, and spelled twice -/

section Samples

attribute [local instance] sampleDeps

/-- Peer 171 is `ab…` in hex. This is it in capitals. -/
def shoutedContact : Contact :=
  { sampleContact 171 with peerId := (sampleContact 171).peerId.map Char.toUpper }

def shoutedRecord : ProviderRecord :=
  { sampleRecord 171 200 with providerPeerId := shoutedContact.peerId }

/-- A node that has met peer 211. -/
def metRun : List (Input × World) :=
  [(.at 100 (.addPeer (samplePeer 211) []), tellingWorld (.nodes []))]

/-- Capitals alone are one spelling: the peer gets one entry. -/
theorem one_entry_shouted :
    let run := metRun ++
      [(.at 100 (.findNode (samplePeer 1)), tellingWorld (.nodes [shoutedContact]))]
    let spell : PeerId → String := fun p =>
      if p = samplePeer 171 then shoutedContact.peerId else Deps.toHex p
    Always stepState DhtService.OneEntry (.new (samplePeer 9) [] .default) run ∧
      EachStep stepState (DhtService.HandsOutOnce spell) (.new (samplePeer 9) [] .default) run := by
  intro run spell
  refine DhtService.one_entry_each spell (samplePeer 9) [] .default run ⟨?_, ?_, trivial⟩
  · constructor
    · intro c hc
      cases hc with
      | bootstrap peers p hop hp => cases hop
      | addPeer peerId addresses hop => cases hop; decide +kernel
      | ingest record p addresses hop hp => cases hop
      | serve caller record p addresses hop hp => cases hop
      | caller d request hop => cases hop
      | told i _ hc => cases names_tellingWorld hc
    · intro id hid
      cases hid with
      | announce content coin hop => cases hop
      | republish hop => cases hop
      | ingest record hop => cases hop
      | serve caller record hop => cases hop
      | told i record hr => cases carries_tellingWorld hr
  · constructor
    · intro c hc
      cases hc with
      | bootstrap peers p hop hp => cases hop
      | addPeer peerId addresses hop => cases hop
      | ingest record p addresses hop hp => cases hop
      | serve caller record p addresses hop hp => cases hop
      | caller d request hop => cases hop
      | told i _ hc =>
        rw [List.mem_singleton.mp (names_tellingWorld hc)]
        decide +kernel
    · intro id hid
      cases hid with
      | announce content coin hop => cases hop
      | republish hop => cases hop
      | ingest record hop => cases hop
      | serve caller record hop => cases hop
      | told i record hr => cases carries_tellingWorld hr

/-- A peer named in both cases is in the table twice, in the lookup result
twice and in the list of holders twice. -/
theorem two_spellings_two_entries :
    let met := exec stepState (DhtService.new (samplePeer 9) [] .default) metRun
    let peers := tellingWorld (.nodes [sampleContact 171, shoutedContact])
    let holders := tellingWorld (.providers [sampleRecord 171 200, shoutedRecord] [])
    ¬(stepState met (.at 100 (.findNode (samplePeer 1)), peers)).OneEntry ∧
      ¬(step met (.at 100 (.findNode (samplePeer 1))) peers).2.reply.OneEntryEach ∧
      ¬(step met (.at 100 (.findProviders sampleContent)) holders).2.reply.OneEntryEach ∧
      ¬(step met (.at 100 (.holdersOf sampleContent)) holders).2.reply.OneEntryEach := by
  intro met peers holders
  -- One evaluation: the four steps share the state they start from.
  have hsteps : (step met (.at 100 (.findNode (samplePeer 1))) peers).2.reply =
        .contacts [sampleContact 171, shoutedContact, sampleContact 211] ∧
      (step met (.at 100 (.findProviders sampleContent)) holders).2.reply =
        .records [shoutedRecord, sampleRecord 171 200] ∧
      (step met (.at 100 (.holdersOf sampleContent)) holders).2.reply =
        .holders [samplePeer 171, samplePeer 171] ∧
      ¬DistinctKeys
        (stepState met (.at 100 (.findNode (samplePeer 1)), peers)).routing.contacts := by
    decide +kernel
  obtain ⟨hfound, hrecords, hholders, htwice⟩ := hsteps
  rw [hfound, hrecords, hholders]
  refine ⟨fun h => htwice h.table, ?_, ?_, ?_⟩
  · show ¬DistinctKeys _
    decide +kernel
  · show ¬DistinctHolders _
    decide +kernel
  · show ¬List.Nodup _
    decide +kernel

end Samples

end DigDht.Service
