/-
DigDht.Service.ShapeTheorems — address lists and pointers keep their
shape.

Nothing about a contact or a record holds by construction, so the shape
is restored by hand at every boundary. §1 is the state: the table, both
stores and the remembered pointers are in shape after every operation,
whatever the network and the callers send. §2 is what leaves the node. All
of it is in shape but the contacts `find_node` returns, which are the
lookup's own: only the copies that go into the table are capped. They are
in shape when the answers were (`shaped_everywhere`), and need not be
otherwise (`find_node_unshaped`).
-/
import DigDht.Service.BindingTheorems

namespace DigDht.Service

open Keyspace Record Routing Lookup Store Wire Content Runs

section Shapes

variable [Deps]

/-! ## §1 What the node holds -/

/-- Moves of the table keep its address lists in shape. -/
theorem DhtService.TableMoves.shaped {t t' : RoutingTable} (h : DhtService.TableMoves t t')
    (ht : ∀ c ∈ t.contacts, WellShaped c.addresses) :
    ∀ c ∈ t'.contacts, WellShaped c.addresses := by
  refine Reach.invariant (Q := fun t : RoutingTable => ∀ c ∈ t.contacts, WellShaped c.addresses)
    ?_ h ht
  intro t op ht hop c hc
  rcases mem_step hc with hold | hnew
  · exact ht c hold
  · obtain ⟨addresses, hcapped⟩ := hop c hnew
    rw [hcapped]
    exact wellShaped_sortAndCap addresses

theorem NodeProfile.shaped_republishedRecord (node : NodeProfile) {pointer : Option String}
    (hpointer : ∀ coinId ∈ pointer, LowerHex64 coinId) (target : Key) (now : Nat) :
    (node.republishedRecord pointer target now).Shaped where
  addresses := wellShaped_sortAndCap _
  pointer := hpointer

theorem NodeProfile.shaped_announcedRecord (node : NodeProfile) (content : ContentId)
    (coin : Option Bytes32) (now : Nat) : (node.announcedRecord content coin now).Shaped := by
  rw [NodeProfile.announcedRecord_eq]
  refine node.shaped_republishedRecord ?_ _ now
  intro coinId hcoin
  obtain ⟨bytes, -, rfl⟩ := Option.map_eq_some_iff.mp hcoin
  exact lowerHex64_toHex64 bytes

theorem NodeProfile.shaped_cacheEntry {node : NodeProfile} {contentKey : String} {now : Nat}
    {record entry : ProviderRecord} (h : node.cacheEntry contentKey now record = some entry) :
    entry.Shaped := by
  unfold cacheEntry at h
  split at h
  · cases h
  · simp only at h
    split at h
    · cases h
    · cases h
      exact record.shaped_normalized.expiring _

namespace DhtService

/-- Every remembered pointer is canonical. -/
def PointersShaped (s : ProviderStore) : Prop :=
  ∀ hex pointer, s.announced.lookup hex = some pointer → ∀ coinId ∈ pointer, LowerHex64 coinId

omit [Deps] in
theorem PointersShaped.announcedCollateral {s : ProviderStore} (h : PointersShaped s)
    (hex : String) : ∀ coinId ∈ s.announcedCollateral hex, LowerHex64 coinId := by
  intro coinId hcoin
  exact h hex (some coinId) (Option.join_eq_some_iff.mp hcoin) coinId rfl

/-- Everything the node holds is in shape. -/
structure Shapely (svc : DhtService) : Prop where
  table : ∀ c ∈ svc.routing.contacts, WellShaped c.addresses
  stored : ∀ k x e, svc.providers.entry k x = some e → e.record.Shaped
  cached : ∀ k x e, svc.discovered.entry k x = some e → e.record.Shaped
  pointers : PointersShaped svc.providers

theorem shapely_new (localId : PeerId) (addresses : List CandidateAddr) (config : DhtConfig) :
    (new localId addresses config).Shapely where
  table := by simp [new]
  stored := by simp [new, ProviderStore.withLimits, ProviderStore.entry]
  cached := by simp [new, ProviderStore.withLimits, ProviderStore.entry]
  pointers := by simp [PointersShaped, new, ProviderStore.withLimits]

/-- So is every record an operation puts into the authoritative store. -/
theorem Shapely.put {svc : DhtService} (h : svc.Shapely) {input : Input} {r : ProviderRecord}
    {now : Nat} (hput : StoreOp.putAt r now ∈ svc.assertionSide.storeOps input) : r.Shaped := by
  cases mem_storeOps_putAt hput with
  | announce content coin hop => exact svc.shaped_announcedRecord content coin _
  | ingest record hop => exact record.shaped_normalized.expiring _
  | republish hex target i hop =>
    exact svc.shaped_republishedRecord (h.pointers.announcedCollateral hex) target _
  | serve caller record hop => exact record.shaped_normalized.expiring _

/-- Every operation keeps it so. -/
theorem shapely_step {svc : DhtService} (hvalid : svc.Valid) (h : svc.Shapely) (input : Input)
    (world : World) : (step svc input world).1.Shapely := by
  refine ⟨(tableMoves_step svc input world).shaped h.table, ?_, ?_, ?_⟩
  · exact forall_stored_step hvalid h.stored fun r now hput => h.put hput
  · exact forall_cached_step h.cached fun q contentKey now entry _ hentry =>
      NodeProfile.shaped_cacheEntry hentry
  · rw [providers_step hvalid]
    refine exec_invariant_mem (Q := PointersShaped) ?_ h.pointers
    intro s op hop hs hex pointer hpointer
    rcases ProviderStore.lookup_announced_cases hpointer with hold | rfl | ⟨-, rfl⟩
    · exact hs hex pointer hold
    · obtain ⟨content, coin, -, -, heq⟩ := marks_storeOps hop rfl
      cases heq
      intro coinId hcoin
      obtain ⟨bytes, -, rfl⟩ := Option.map_eq_some_iff.mp hcoin
      exact lowerHex64_toHex64 bytes
    · exact nofun

/-! ## §2 What leaves the node -/

/-- An `AddProvider` that is sent carries a record in shape. -/
def SendsShaped (sent : List Sent) : Prop :=
  ∀ x ∈ sent, ∀ r, x.2 = .addProvider r → r.Shaped

theorem sendsShaped_step {svc : DhtService} (h : svc.Shapely) (input : Input) (world : World) :
    SendsShaped (step svc input world).2.sent := by
  intro x hx r heq
  obtain ⟨c, request⟩ := x
  subst heq
  obtain ⟨-, -, now, hput⟩ := sent_step svc input world hx
  exact h.put hput

end DhtService

/-- Every address list and every pointer of the reply is in shape. -/
def Reply.Shaped : Reply → Prop
  | .contacts cs => ∀ c ∈ cs, WellShaped c.addresses
  | .records rs => ∀ r ∈ rs, r.Shaped
  | .response (.nodes cs) => ∀ c ∈ cs, WellShaped c.addresses
  | .response (.providers rs cs) => (∀ r ∈ rs, r.Shaped) ∧ ∀ c ∈ cs, WellShaped c.addresses
  | _ => True

theorem Reply.Shaped.of_plain {reply : Reply} (h : reply.Plain) : reply.Shaped := by
  unfold Reply.Shaped
  split <;> first | exact h.elim | trivial

namespace DhtService

theorem shaped_get {s : ProviderStore}
    (hs : ∀ k x e, s.entry k x = some e → e.record.Shaped) {k : String} {now : Nat} :
    ∀ r ∈ s.get k now, r.Shaped := by
  intro r hr
  obtain ⟨x, e, he, rfl, -⟩ := ProviderStore.mem_get hr
  exact hs k x e he

theorem Shapely.closest {svc : DhtService} (h : svc.Shapely) (target : Key) :
    ∀ c ∈ svc.routing.closest target, WellShaped c.addresses :=
  fun c hc => h.table c (RoutingTable.mem_of_mem_closest hc)

theorem Shapely.returned {svc : DhtService} (h : svc.Shapely) (clock : Nat → Nat)
    (swarm : Swarm) (content : ContentId) :
    ∀ r ∈ (svc.findProviders clock swarm content).2.1, r.Shaped := by
  intro r hr
  obtain ⟨-, hlocal | hcached | ⟨q, -, rfl⟩⟩ := mem_returned hr
  · exact shaped_get h.stored r hlocal
  · exact shaped_get h.cached r hcached
  · exact q.shaped_normalized

/-- Learning a caller keeps what the node holds in shape. -/
theorem Shapely.learn {svc svc' : DhtService} (h : svc.Shapely) {caller : Option Contact}
    (hlearn : svc.learnCaller caller = some svc') : svc'.Shapely := by
  have hmoves : TableMoves svc.routing svc'.routing :=
    (moves_learnCaller (K := fun _ => True) (fun _ _ => trivial) hlearn).capped
  obtain ⟨routing, rfl⟩ := rerouted_learnCaller hlearn
  exact ⟨hmoves.shaped h.table, h.stored, h.cached, h.pointers⟩

/-- The answers to a `find_node` name contacts in shape only. -/
def ToldShaped (x : Input × World) : Prop :=
  ∀ peerId, x.1.op = .findNode peerId → ∀ c, (x.2.swarms 0).Names c → WellShaped c.addresses

theorem Shapely.reply {svc : DhtService} (h : svc.Shapely) {x : Input × World}
    (hx : ToldShaped x) {reply : Reply} (hreply : Replies svc x.1 x.2 reply) :
    reply.Shaped := by
  cases hreply with
  | plain hplain => exact .of_plain hplain
  | known target => exact h.closest target
  | found peerId hop =>
    intro c hc
    rcases mem_closest_runLookup hc with hseed | htold
    · exact h.closest _ c hseed
    · exact hx peerId hop c htold
  | cached content => exact shaped_get h.cached
  | returned content => exact h.returned _ _ content
  | holders content => trivial
  | nodes hop hlearn key => exact (h.learn hlearn).closest key
  | providers hop hlearn key =>
    have h' := h.learn hlearn
    exact ⟨shaped_get h'.stored, h'.closest key⟩

/-- **Shape at every boundary.** In every run whose `find_node` lookups
are told of contacts in shape: the table and the stores are in shape in
every state, and so is every list that a reply or an `AddProvider`
carries. Nothing is asked of what other operations are told. -/
theorem shaped_everywhere (localId : PeerId) (addresses : List CandidateAddr) (config : DhtConfig)
    (run : List (Input × World))
    (h : EachStep stepState (fun _ x => ToldShaped x) (new localId addresses config) run) :
    Always stepState Shapely (new localId addresses config) run ∧
      EachStep stepState (fun svc x => (step svc x.1 x.2).2.reply.Shaped ∧
        SendsShaped (step svc x.1 x.2).2.sent) (new localId addresses config) run := by
  have hstart : (new localId addresses config).Valid ∧ (new localId addresses config).Shapely :=
    ⟨valid_new localId addresses config, shapely_new localId addresses config⟩
  have hstep : ∀ svc (x : Input × World), svc.Valid ∧ svc.Shapely →
      (stepState svc x).Valid ∧ (stepState svc x).Shapely := fun svc x hs =>
    ⟨valid_step hs.1 x.1 x.2, shapely_step hs.1 hs.2 x.1 x.2⟩
  constructor
  · exact (always_of_step hstep hstart run).imp fun _ hs => hs.2
  · refine h.imp (I := fun svc => svc.Valid ∧ svc.Shapely) (fun svc x hs _ => hstep svc x hs) ?_
      hstart
    intro svc x hs hx
    exact ⟨hs.2.reply hx (replies_step svc x.1 x.2), sendsShaped_step hs.2 x.1 x.2⟩

end DhtService

end Shapes

/-! ### Eight addresses, and nine -/

section Samples

attribute [local instance] sampleDeps

def contactWith (addresses : Nat) : Contact :=
  { sampleContact 171 with addresses := List.replicate addresses (.direct "a" 1) }

/-- A node that has met peer 211 looks for peer 1 and is told of `c`. -/
def toldRun (c : Contact) : List (Input × World) :=
  [(.at 100 (.addPeer (samplePeer 211) []), tellingWorld (.nodes [])),
    (.at 100 (.findNode (samplePeer 1)), tellingWorld (.nodes [c]))]

/-- Eight addresses are in shape, and all that leaves the node is. -/
theorem shaped_eight :
    let start := DhtService.new (samplePeer 9) [] .default
    Always stepState DhtService.Shapely start (toldRun (contactWith 8)) ∧
      EachStep stepState (fun svc x => (step svc x.1 x.2).2.reply.Shaped ∧
        DhtService.SendsShaped (step svc x.1 x.2).2.sent) start (toldRun (contactWith 8)) := by
  refine DhtService.shaped_everywhere (samplePeer 9) [] .default (toldRun (contactWith 8))
    ⟨nofun, ?_, trivial⟩
  intro peerId hop c hc
  rw [List.mem_singleton.mp (names_tellingWorld hc)]
  exact wellShaped_iff.mpr (by decide +kernel)

/-- The ninth address is handed on by `find_node`; the table drops it. -/
theorem find_node_unshaped :
    let met := exec stepState (DhtService.new (samplePeer 9) [] .default)
      ((toldRun (contactWith 9)).take 1)
    let told := tellingWorld (.nodes [contactWith 9])
    let asked := step met (.at 100 (.findNode (samplePeer 1))) told
    ¬asked.2.reply.Shaped ∧ contactWith 8 ∈ asked.1.routing.contacts := by
  intro met told asked
  have hreply : asked.2.reply = .contacts [contactWith 9, sampleContact 211] := by decide +kernel
  rw [hreply]
  constructor
  · intro h
    have hcount := (h (contactWith 9) (by simp)).count
    simp [contactWith, maxAddressesPerRecord] at hcount
  · decide +kernel

end Samples

end DigDht.Service
