/-
DigDht.Service.RetentionTheorems — whom and what a node forgets.

Everybody may fill a routing table: callers, ingested records, the
contacts lookups are told of. Nobody can empty it. §1 says what an
operation does to the table, and it says all: it inserts contacts, or it
is `remove_peer` or a `ping` that went unanswered and removes the one it
names (`grows_or_removes`). §2 draws the consequence for whole runs: a
peer stays until the node's own side removes it (`held_until_removed`).
§3 is the other table, the authoritative store: what any event of a node
runs on it (`storeOps`).
-/
import DigDht.Routing.RecencyTheorems
import DigDht.Routing.SaturationTheorems
import DigDht.Service.InterleavingTheorems

namespace DigDht.Service

open Keyspace Record Routing Lookup Store Wire Content Runs

section Retention

variable [Deps]

/-! ## §1 What an operation does to the table -/

/-- The table moved by inserts alone. -/
abbrev Grows : RoutingTable → RoutingTable → Prop :=
  Reach Routing.step fun op => ∃ c, op = .insert c

/-- The peer an operation removes: it was told to, or the peer did not
answer a ping. -/
def removed (input : Input) (world : World) : Option String :=
  match input.op with
  | .removePeer x => some x
  | .ping peer =>
    if (world.swarms 0).rpc [] peer (.ping world.nonce) = some (.pong world.nonce) then none
    else some peer.peerId
  | _ => none

/-- The peer an event of a node removes. -/
def Event.removed : Event → Option String
  | .call x => Service.removed x.1 x.2
  | _ => none

namespace DhtService

theorem grows_insert (t : RoutingTable) (c : Contact) : Grows t (t.insert c).1 :=
  Reach.single t (i := RoutingOp.insert c) ⟨c, rfl⟩

theorem grows_absorbContacts (svc : DhtService) (cs : List Contact) :
    Grows svc.routing (svc.absorbContacts cs).routing := by
  refine List.foldlRecOn cs _ (Reach.refl _) ?_
  intro rt hrt c hc
  exact hrt.trans (grows_insert rt c.capped)

theorem grows_insertAll (rt : RoutingTable) (cs : List Contact) :
    Grows rt (insertAll rt cs).1 := by
  induction cs generalizing rt with
  | nil => exact Reach.refl rt
  | cons c cs ih =>
    have hhead := grows_insert rt c
    simp only [insertAll]
    split
    · rename_i rt' heq
      rwa [heq] at hhead
    · rename_i rt' outcome _ heq
      rw [heq] at hhead
      exact hhead.trans (ih rt')

theorem grows_admitVerifiedRecord (svc : DhtService) (record : ProviderRecord) (now : Nat) :
    Grows svc.routing (svc.admitVerifiedRecord record now).1.routing := by
  unfold admitVerifiedRecord
  simp only
  split
  · rename_i pid _ hpid
    have hgrow := grows_insert svc.routing
      (Contact.new pid (svc.clampedRecord record now).addresses)
    split <;> rename_i heq <;> rwa [heq] at hgrow
  · exact Reach.refl _

theorem grows_learnCaller {svc svc' : DhtService} {caller : Option Contact}
    (h : svc.learnCaller caller = some svc') : Grows svc.routing svc'.routing := by
  unfold learnCaller at h
  split at h
  · cases h
    exact Reach.refl _
  · rename_i c
    split at h
    · cases h
      exact Reach.refl _
    · have hgrow := grows_insert svc.routing c.capped
      split at h
      · cases h
      · rename_i heq
        cases h
        rwa [heq] at hgrow

theorem grows_handleRequestFrom (svc : DhtService) (now : Nat) (caller : Option Contact)
    (request : DhtRequest) :
    Grows svc.routing (svc.handleRequestFrom now caller request).1.routing := by
  unfold handleRequestFrom
  cases hlearn : svc.learnCaller caller with
  | none => exact Reach.refl _
  | some svc' =>
    refine (grows_learnCaller hlearn).trans ?_
    rcases svc'.answer_fst now (caller.map Contact.peerId) request with h | ⟨record, -, -, h⟩
    · simp only [h]
      exact Reach.refl _
    · simp only [h]
      exact svc'.grows_admitVerifiedRecord record now

theorem grows_searchAndAbsorb (svc : DhtService) (swarm : Swarm) (target : Key) :
    Grows svc.routing (svc.searchAndAbsorb swarm target).1.routing := by
  unfold searchAndAbsorb
  simp only
  split
  · exact Reach.refl _
  · exact svc.grows_absorbContacts _

theorem grows_findProviders (svc : DhtService) (clock : Nat → Nat) (swarm : Swarm)
    (content : ContentId) :
    Grows svc.routing (svc.findProviders clock swarm content).1.routing := by
  unfold findProviders
  simp only
  split
  · exact Reach.refl _
  · split
    · exact Reach.refl _
    · exact svc.grows_absorbContacts _

theorem grows_refreshFrom (svc : DhtService) (random : Nat → Bytes32) (swarms : Nat → Swarm)
    (i : Nat) (indices : List (Fin 256)) :
    Grows svc.routing (svc.refreshFrom random swarms i indices).1.routing := by
  induction indices generalizing svc i with
  | nil => exact Reach.refl _
  | cons idx rest ih => exact (svc.grows_searchAndAbsorb (swarms i) _).trans (ih _ (i + 1))

theorem grows_republishFrom (svc : DhtService) (clock : Nat → Nat) (swarms : Nat → Swarm)
    (i : Nat) (keys : List String) :
    Grows svc.routing (svc.republishFrom clock swarms i keys).1.routing := by
  induction keys generalizing svc i with
  | nil => exact Reach.refl _
  | cons hex rest ih =>
    unfold republishFrom
    cases parseKey hex with
    | none => exact ih svc (i + 1)
    | some target =>
      let record := svc.republishedRecord (svc.providers.announcedCollateral hex) target
        (clock (2 * i))
      let stored : DhtService :=
        { svc with providers := (svc.providers.putAt record (clock (2 * i + 1))).1 }
      have hgrow : Grows svc.routing (stored.publish (swarms i) target record).1.routing := by
        rw [publish_fst]
        exact stored.grows_searchAndAbsorb (swarms i) target
      exact hgrow.trans (ih _ (i + 1))

/-- **All an operation does to the table**: inserts, or one removal. -/
theorem grows_or_removes (svc : DhtService) (input : Input) (world : World) :
    Grows svc.routing (step svc input world).1.routing ∨
      ∃ x ∈ removed input world,
        (step svc input world).1.routing = (svc.routing.remove x).1 := by
  obtain ⟨op, clock, order, hperm⟩ := input
  cases op with
  | bootstrap peers =>
    left
    have hgrow := grows_insertAll svc.routing (peers.map BootstrapPeer.toContact)
    simp only [step, bootstrap]
    split <;> rename_i routing heq <;> rw [heq] at hgrow
    · exact hgrow
    · exact hgrow.trans (grows_absorbContacts { svc with routing } _)
  | addPeer peerId addresses =>
    left
    have hgrow := grows_insert svc.routing (Contact.new peerId addresses)
    simp only [step]
    split <;> rename_i heq <;> rwa [heq] at hgrow
  | removePeer x => exact Or.inr ⟨x, rfl, rfl⟩
  | findNode peerId =>
    left
    simp only [step, findNode_fst]
    exact svc.grows_searchAndAbsorb _ _
  | findProviders content => exact Or.inl (svc.grows_findProviders clock _ content)
  | announceProviderWithCollateral content coin =>
    left
    simp only [step, announceProviderWithCollateral, publish_fst]
    exact (svc.storeAnnounced _ _ _).grows_searchAndAbsorb _ _
  | ingestVerifiedProvider record =>
    exact Or.inl (svc.grows_admitVerifiedRecord record (clock 0))
  | holdersOf content => exact Or.inl (svc.grows_findProviders clock _ content)
  | republish => exact Or.inl (svc.grows_republishFrom clock _ 0 _)
  | refreshBuckets => exact Or.inl (svc.grows_refreshFrom _ _ 0 _)
  | ping peer =>
    by_cases hanswered :
        (world.swarms 0).rpc [] peer (.ping world.nonce) = some (.pong world.nonce)
    · exact Or.inl (by simp [step, ping, hanswered, Reach.refl])
    · exact Or.inr ⟨peer.peerId, if_neg hanswered, by simp [step, ping, hanswered]⟩
  | handleRequestFrom caller request =>
    exact Or.inl (svc.grows_handleRequestFrom (clock 0) caller request)
  | cachedProviders _ => exact Or.inl (Reach.refl _)
  | forgetDiscovered _ => exact Or.inl (Reach.refl _)
  | withdrawProvider _ => exact Or.inl (Reach.refl _)
  | removeProviderRecord _ _ => exact Or.inl (Reach.refl _)
  | providerSnapshot _ => exact Or.inl (Reach.refl _)
  | retractOwnProvider _ => exact Or.inl (Reach.refl _)
  | gc => exact Or.inl (Reach.refl _)
  | knownClosest _ => exact Or.inl (Reach.refl _)
  | routingLen => exact Or.inl (Reach.refl _)

end DhtService

/-! ## §2 Runs -/

/-- A removal takes out nobody but the one it names. -/
theorem mem_ids_remove {t : RoutingTable} {x y : String} (hx : x ∈ t.ids) (hother : x ≠ y) :
    x ∈ (t.remove y).1.ids := by
  obtain ⟨d, hd, rfl⟩ := List.mem_map.mp hx
  obtain ⟨j, hj⟩ := RoutingTable.mem_contacts.mp hd
  have hstep : (t.remove y).1 = Routing.step t (.remove y) := rfl
  rw [hstep]
  rcases step_effect t (.remove y) with ⟨-, heq⟩ | ⟨c, i, hop, -⟩ | ⟨lru, c, i, _, _, hop, -⟩ |
    ⟨z, i, hop, -, heq⟩
  · rwa [heq]
  · cases hop
  · cases hop
  · cases hop
    rw [heq]
    refine List.mem_map_of_mem (RoutingTable.mem_contacts_setBucket hj ?_)
    rintro rfl
    exact KBucket.mem_without_of_ne hj hother

theorem Grows.mem_ids {t t' : RoutingTable} (h : Grows t t') {x : String} (hx : x ∈ t.ids) :
    x ∈ t'.ids := by
  refine Reach.invariant (Q := fun t : RoutingTable => x ∈ t.ids) ?_ h hx
  rintro t op ht ⟨c, rfl⟩
  exact mem_ids_insert ht

theorem Grows.covers {t t' : RoutingTable} (h : Grows t t') {x : String} (hx : t.Covers x) :
    t'.Covers x := by
  refine Reach.invariant (Q := fun t : RoutingTable => t.Covers x) ?_ h hx
  rintro t op ht ⟨c, rfl⟩
  exact ht.insert c

namespace Node

/-- The same of the events of a node: publications only insert. -/
theorem grows_or_removes (s : Node) (e : Event) :
    Grows s.svc.routing (s.step e).svc.routing ∨
      ∃ x ∈ e.removed, (s.step e).svc.routing = (s.svc.routing.remove x).1 := by
  cases e with
  | call x =>
    exact s.svc.grows_or_removes x.1 x.2
  | startRepublish order hperm => exact Or.inl (Reach.refl _)
  | startAnnounce content coin now now' => exact Or.inl (Reach.refl _)
  | advance i now swarm =>
    left
    simp only [step]
    cases hget : s.running[i]? with
    | none => exact Reach.refl _
    | some p =>
      rcases p.window_svc s.svc s.time now swarm with heq | ⟨r, -, heq⟩ | ⟨cs, heq⟩ <;>
        simp only [heq]
      · exact Reach.refl _
      · exact Reach.refl _
      · exact s.svc.grows_absorbContacts cs

/-- **A peer stays until the node removes it.** Whatever callers, lookups
and other contacts a node meets: a peer in the routing table is in it in
every state of a run in which it is neither removed by `remove_peer` nor
fails a ping. -/
theorem held_until_removed (s : Node) {x : String} (hheld : x ∈ s.svc.routing.ids)
    {run : List Event} (hrun : ∀ e ∈ run, e.removed ≠ some x) :
    Always Node.step (fun s => x ∈ s.svc.routing.ids) s run := by
  have heach : EachStep Node.step (fun _ e => e.removed ≠ some x) s run :=
    eachStep_of_invariant (I := fun _ => True) (fun _ _ _ _ => trivial)
      (fun _ e he _ => hrun e he) trivial
  refine always_of_eachStep ?_ hheld heach
  intro s e hx hkept
  rcases s.grows_or_removes e with hgrow | ⟨y, hremoved, hrouting⟩
  · exact hgrow.mem_ids hx
  · rw [hrouting]
    refine mem_ids_remove hx ?_
    rintro rfl
    exact hkept hremoved

/-! ## §3 What an event does to the store -/

/-- The operations an event runs on the authoritative store. -/
def storeOps (s : Node) : Event → List StoreOp
  | .call x => s.svc.assertionSide.storeOps x.1
  | .startRepublish _ _ => []
  | .startAnnounce content coin now now' =>
    let record := s.svc.announcedRecord content coin now
    [.putAt record now',
      .markAnnouncedWithCollateral content.toKey.toHex record.unverifiedMirrorCoinId]
  | .advance i now _ =>
    (s.running[i]?.bind fun p => p.stage.unstored).toList.map fun r => .putAt r now

theorem providers_step {s : Node} (h : s.svc.Valid) (e : Event) :
    (s.step e).svc.providers = exec Store.step s.svc.providers (s.storeOps e) := by
  cases e with
  | call x => exact DhtService.providers_step h x.1 x.2
  | startRepublish order hperm => rfl
  | startAnnounce content coin now now' => rfl
  | advance i now swarm =>
    simp only [step, storeOps]
    cases hget : s.running[i]? with
    | none => rfl
    | some p =>
      obtain ⟨pending, stage⟩ := p
      cases stage with
      | idle =>
        cases pending with
        | nil => rfl
        | cons hex rest =>
          simp only [Publication.window]
          cases parseKey hex <;> rfl
      | built target r b => rfl
      | stored target r b =>
        simp only [Publication.window]
        split <;> rfl
      | found target r b closest => rfl
      | sending target r b peers => cases peers <;> rfl

end Node

end Retention

/-! ### Peer 1 is removed -/

section Samples

attribute [local instance] sampleDeps

/-- A stranger calls, and peer 1 is removed: peer 211 stays. -/
theorem held_until_removed_two :
    (sampleContact 211).peerId ∈ (exec Node.step (Node.start sampleService)
      [.call (.at 100 (.handleRequestFrom (some (sampleContact 77)) (.ping 7)),
          tellingWorld .addProviderOk),
        .call (.at 110 (.removePeer (sampleContact 1).peerId),
          tellingWorld .addProviderOk)]).svc.routing.ids :=
  (Node.held_until_removed (Node.start sampleService) (by decide +kernel)
    (by decide +kernel)).last

end Samples

end DigDht.Service
