/-
DigDht.Network.ProvenanceTheorems — nobody speaks for a node but the node.

A record is GENUINE if, where it names a node of the network, that node
announced the very content, with the very pointer if there is one, and
the addresses are the node's own. §1 is the bookkeeping of one node: what
it holds and sends in its own name it was told to announce, whatever
reaches it (`truthful_step`). §2 is what mTLS gives (`Authentic`): who
calls as a node is that node, and an AddProvider from it is one it sent —
now or earlier, once or many times, in whatever order. Everybody else may
call with anything, and lookups may be answered with anything. Every
authoritative store and every answer served from one is genuine
throughout (`no_forgery`). §3 adds that answers to lookups were given by
nodes. What a node caches, finds and hands out is genuine then too
(`found_announced`).
-/
import DigDht.Network.Network
import DigDht.Service.BindingTheorems
import DigDht.Service.PointerTheorems
import DigDht.Service.RetentionTheorems

namespace DigDht.Network

open Keyspace Record Routing Lookup Store Wire Content Service Runs

section Provenance

variable [Deps]

/-! ## §1 One node -/

/-- The node announced the content of the key, with the pointer if there
is one. -/
def Announced (log : List Announcement) (peerId contentKey : String) (pointer : Option String) :
    Prop :=
  ∃ a ∈ log, a.peerId = peerId ∧ a.content.toKey.toHex = contentKey ∧
    (pointer = none ∨ pointer = a.unverifiedMirrorCoinId.map toHex64)

theorem Announced.mono {log log' : List Announcement} {peerId contentKey : String}
    {pointer : Option String} (h : Announced log peerId contentKey pointer) (hlog : log ⊆ log') :
    Announced log' peerId contentKey pointer := by
  obtain ⟨a, ha, hrest⟩ := h
  exact ⟨a, hlog ha, hrest⟩

instance (log : List Announcement) (peerId contentKey : String) (pointer : Option String) :
    Decidable (Announced log peerId contentKey pointer) :=
  inferInstanceAs (Decidable (∃ a ∈ log, _))

/-- The record is one the node makes of its announces. -/
@[mk_iff] structure MadeBy (log : List Announcement) (node : NodeProfile) (r : ProviderRecord) :
    Prop where
  spelled : r.providerPeerId = node.selfId
  addresses : r.addresses = sortAndCapAddresses node.localAddresses
  announced : Announced log node.selfId r.contentKey r.unverifiedMirrorCoinId

instance (log : List Announcement) (node : NodeProfile) (r : ProviderRecord) :
    Decidable (MadeBy log node r) :=
  decidable_of_iff _ (madeBy_iff log node r).symm

namespace MadeBy

variable {log log' : List Announcement} {node : NodeProfile} {r : ProviderRecord}

theorem mono (h : MadeBy log node r) (hlog : log ⊆ log') : MadeBy log' node r :=
  ⟨h.spelled, h.addresses, h.announced.mono hlog⟩

theorem expiring (h : MadeBy log node r) (expiresAt : Nat) :
    MadeBy log node { r with expiresAt } :=
  ⟨h.spelled, h.addresses, h.announced⟩

theorem shaped (h : MadeBy log node r) : r.Shaped := by
  refine ⟨h.addresses ▸ wellShaped_sortAndCap node.localAddresses, ?_⟩
  intro coinId hcoin
  obtain ⟨a, -, -, -, hnone | hpointer⟩ := h.announced
  · rw [hnone] at hcoin
    cases hcoin
  · rw [hpointer] at hcoin
    obtain ⟨bytes, -, rfl⟩ := Option.map_eq_some_iff.mp hcoin
    exact lowerHex64_toHex64 bytes

theorem republished {pointer : Option String} {target : Key}
    (h : Announced log node.selfId target.toHex pointer) (now : Nat) :
    MadeBy log node (node.republishedRecord pointer target now) :=
  ⟨rfl, rfl, h⟩

theorem of_announce {content : ContentId} {coin : Option Bytes32}
    (h : ⟨node.selfId, content, coin⟩ ∈ log) (now : Nat) :
    MadeBy log node (node.announcedRecord content coin now) := by
  rw [NodeProfile.announcedRecord_eq]
  exact .republished ⟨_, h, rfl, rfl, Or.inr rfl⟩ now

end MadeBy

/-- A node whose own part is what it was told to announce. -/
structure Truthful (log : List Announcement) (s : Node) : Prop where
  sound : s.Sound
  marked : ∀ hex pointer, s.svc.providers.announced.lookup hex = some pointer →
    Announced log s.svc.selfId hex pointer
  pending : ∀ p ∈ s.running, ∀ hex ∈ p.pending, Announced log s.svc.selfId hex none
  held : ∀ p ∈ s.running, ∀ r b, p.stage.held = some (r, b) → MadeBy log s.svc.toNodeProfile r
  posted : ∀ m ∈ s.posted, MadeBy log s.svc.toNodeProfile m.record

theorem truthful_start (log : List Announcement) (localId : PeerId)
    (addresses : List CandidateAddr) (config : DhtConfig) :
    Truthful log (Node.start (.new localId addresses config)) where
  sound := Node.sound_start (DhtService.valid_new localId addresses config)
  marked := by simp [Node.start, DhtService.new, ProviderStore.withLimits]
  pending := by simp [Node.start]
  held := by simp [Node.start]
  posted := by simp [Node.start]

theorem Truthful.mono {log log' : List Announcement} {s : Node} (h : Truthful log s)
    (hlog : log ⊆ log') : Truthful log' s where
  sound := h.sound
  marked hex pointer hp := (h.marked hex pointer hp).mono hlog
  pending p hp hex hmem := (h.pending p hp hex hmem).mono hlog
  held p hp r b hr := (h.held p hp r b hr).mono hlog
  posted m hm := (h.posted m hm).mono hlog

/-- What a node remembers for a key on a republish's list is a pointer it
announced the key with, or none. -/
theorem Truthful.collateral {log : List Announcement} {s : Node} (h : Truthful log s) {hex : String}
    (hlisted : Announced log s.svc.selfId hex none) :
    Announced log s.svc.selfId hex (s.svc.providers.announcedCollateral hex) := by
  rw [ProviderStore.announcedCollateral]
  cases hpointer : s.svc.providers.announced.lookup hex with
  | none => exact hlisted
  | some pointer => exact h.marked hex pointer hpointer

/-- What an operation of the node puts into its own store: a record the
node makes, or one it was given. -/
theorem Truthful.put {log : List Announcement} {s : Node} (h : Truthful log s) {x : Input × World}
    {r : ProviderRecord} {now : Nat} (hput : DhtService.PutBy s.svc.assertionSide x.1 r now) :
    MadeBy (log ++ announcements s.svc.selfId (.call x)) s.svc.toNodeProfile r ∨
      ∃ record, r = s.svc.clampedRecord record now ∧
        (x.1.op = .ingestVerifiedProvider record ∨
          ∃ caller, x.1.op = .handleRequestFrom caller (.addProvider record) ∧
            DhtService.namesAnother (caller.map Contact.peerId) record = false) := by
  cases hput with
  | announce content coin hop =>
    left
    have hmem : ⟨s.svc.selfId, content, coin⟩ ∈
        log ++ announcements s.svc.selfId (.call x) := by simp [announcements, hop]
    have hmade : MadeBy _ s.svc.toNodeProfile (s.svc.announcedRecord content coin (x.1.clock 0)) :=
      .of_announce hmem _
    exact hmade
  | ingest record hop => exact Or.inr ⟨record, rfl, Or.inl hop⟩
  | republish hex target i hop hlisted hparse =>
    left
    obtain ⟨key, rfl⟩ := h.sound.valid.announced hex hlisted
    rw [parseKey_toHex] at hparse
    cases hparse
    obtain ⟨pointer, hpointer⟩ := FMap.mem_keys_iff.mp hlisted
    obtain ⟨a, ha, hid, hkey, -⟩ := h.marked _ _ hpointer
    have hmade : MadeBy log s.svc.toNodeProfile _ := .republished
      (h.collateral ⟨a, ha, hid, hkey, Or.inl rfl⟩) (x.1.clock (2 * i))
    exact hmade.mono (List.subset_append_left _ _)
  | serve caller record hop hown => exact Or.inr ⟨record, rfl, Or.inr ⟨caller, hop, hown⟩⟩

/-- What an operation sends in an AddProvider the node makes. -/
theorem Truthful.sent {log : List Announcement} {s : Node} (h : Truthful log s) {x : Input × World}
    {c : Contact} {r : ProviderRecord}
    (hsent : (c, DhtRequest.addProvider r) ∈ (Service.step s.svc x.1 x.2).2.sent) :
    MadeBy (log ++ announcements s.svc.selfId (.call x)) s.svc.toNodeProfile r := by
  obtain ⟨-, -, now, hput⟩ := DhtService.sent_step s.svc x.1 x.2 hsent
  rcases h.put (DhtService.mem_storeOps_putAt hput) with hmade | ⟨record, -, hop | ⟨caller, hop, -⟩⟩
  · exact hmade
  · simp only [Service.step, hop] at hsent
    cases hsent
  · simp only [Service.step, hop] at hsent
    cases hsent

theorem truthful_call {log : List Announcement} {s : Node} (h : Truthful log s)
    (x : Input × World) :
    Truthful (log ++ announcements s.svc.selfId (.call x)) (s.step (.call x)) := by
  have hprofile : (s.step (.call x)).svc.toNodeProfile = s.svc.toNodeProfile :=
    DhtService.toNodeProfile_step h.sound.valid x.1 x.2
  have hself : (s.step (.call x)).svc.selfId = s.svc.selfId := by
    rw [NodeProfile.selfId, hprofile]
    rfl
  have hold := h.mono (List.subset_append_left log (announcements s.svc.selfId (.call x)))
  refine ⟨Node.sound_step h.sound _, ?_, ?_, ?_, ?_⟩
  · intro hex pointer hpointer
    rw [hself]
    have hstore : (s.step (.call x)).svc.providers =
        exec Store.step s.svc.providers (s.svc.assertionSide.storeOps x.1) :=
      DhtService.providers_step h.sound.valid x.1 x.2
    rw [hstore] at hpointer
    rcases ProviderStore.lookup_announced_exec hpointer with hmarked | ⟨op, hop, hmark⟩
    · exact hold.marked hex pointer hmarked
    · have hmarks : ProviderStore.marks op = some hex := by
        rcases hmark with rfl | ⟨rfl, -⟩ <;> rfl
      obtain ⟨content, coin, hannounce, hkey, heq⟩ := DhtService.marks_storeOps hop hmarks
      have hpair : pointer = coin.map toHex64 := by
        rcases hmark with hmark | ⟨hmark, -⟩ <;> rw [heq] at hmark <;> cases hmark
        rfl
      exact ⟨⟨s.svc.selfId, content, coin⟩, by simp [announcements, hannounce], rfl, hkey.symm,
        Or.inr hpair⟩
  · rw [hself]
    exact hold.pending
  · rw [hprofile]
    exact hold.held
  · intro m hm
    rw [hprofile]
    rcases List.mem_append.mp hm with hm | hm
    · exact hold.posted m hm
    · exact h.sent (Node.mem_stamped hm).2

/-- What a publication has in hand after a window the node made. -/
theorem Truthful.window {log : List Announcement} {s : Node} (h : Truthful log s)
    {p : Publication} (hp : p ∈ s.running) {now : Nat} {swarm : Swarm} {r : ProviderRecord}
    {b : Nat} (hheld : (p.window s.svc s.time now swarm).2.1.stage.held = some (r, b)) :
    MadeBy log s.svc.toNodeProfile r := by
  rcases p.window_held s.svc s.time now swarm with ⟨-, -, hold⟩ |
    ⟨hex, hpending, hidle | ⟨target, r', hparse, -, hbuilt⟩⟩
  · exact h.held p hp r b (hold _ hheld)
  · rw [hidle] at hheld
    cases hheld
  · rw [hbuilt] at hheld
    cases hheld
    obtain ⟨-, hex', rest, target', hlist, hparse', hr⟩ :=
      p.window_built s.svc s.time now swarm (r := r) (by rw [hbuilt]; rfl)
    have hmem : hex' ∈ p.pending := by simp [hlist]
    obtain ⟨key, rfl⟩ := (h.sound.running p hp).canonical hex' hmem
    rw [parseKey_toHex] at hparse'
    cases hparse'
    rw [hr]
    have hmade : MadeBy log s.svc.toNodeProfile _ :=
      .republished (h.collateral (h.pending p hp _ hmem)) now
    exact hmade

theorem truthful_advance {log : List Announcement} {s : Node} (h : Truthful log s) (i now : Nat)
    (swarm : Swarm) : Truthful log (s.step (.advance i now swarm)) := by
  have hsound := Node.sound_step h.sound (.advance i now swarm)
  simp only [Node.step] at hsound ⊢
  cases hget : s.running[i]? with
  | none => exact ⟨by simpa [hget] using hsound, h.marked, h.pending, h.held, h.posted⟩
  | some p =>
    rw [hget] at hsound
    have hp := List.mem_of_getElem? hget
    -- The service keeps its profile and its announced keys.
    obtain ⟨hprofile, hmap⟩ : (p.window s.svc s.time now swarm).1.toNodeProfile =
        s.svc.toNodeProfile ∧ (p.window s.svc s.time now swarm).1.providers.announced =
          s.svc.providers.announced := by
      rcases p.window_svc s.svc s.time now swarm with heq | ⟨r, -, heq⟩ | ⟨cs, heq⟩ <;> rw [heq]
      · exact ⟨rfl, rfl⟩
      · exact ⟨rfl, ProviderStore.announced_putAt _ _ _⟩
      · exact ⟨rfl, rfl⟩
    have hself : (p.window s.svc s.time now swarm).1.selfId = s.svc.selfId := by
      rw [NodeProfile.selfId, hprofile]
      rfl
    refine ⟨hsound, ?_, ?_, ?_, ?_⟩
    · intro hex pointer hpointer
      simp only [hself, hmap] at hpointer ⊢
      exact h.marked hex pointer hpointer
    · simp only [hself]
      intro q hq hex hmem
      rcases List.mem_or_eq_of_mem_set hq with hq | rfl
      · exact h.pending q hq hex hmem
      · refine h.pending p hp hex ?_
        rcases p.window_held s.svc s.time now swarm with ⟨hpending, -⟩ | ⟨hex', hpending, -⟩
        · rwa [hpending] at hmem
        · exact hpending ▸ List.mem_cons_of_mem hex' hmem
    · simp only [hprofile]
      intro q hq r b hheld
      rcases List.mem_or_eq_of_mem_set hq with hq | rfl
      · exact h.held q hq r b hheld
      · exact h.window hp hheld
    · simp only [hprofile]
      intro m hm
      rcases List.mem_append.mp hm with hm | hm
      · exact h.posted m hm
      · exact h.held p hp _ _ (p.window_posted s.svc s.time now swarm hm)

/-- **The bookkeeping of one node.** Whatever reaches it and whatever it
is told, a node speaks in its own name only as it was told to announce. -/
theorem truthful_step {log : List Announcement} {s : Node} (h : Truthful log s) (e : Event) :
    Truthful (log ++ announcements s.svc.selfId e) (s.step e) := by
  have hold := h.mono (List.subset_append_left log (announcements s.svc.selfId e))
  cases e with
  | call x => exact truthful_call h x
  | startRepublish order hperm =>
    refine ⟨Node.sound_step h.sound _, hold.marked, ?_, ?_, hold.posted⟩
    · intro p hp hex hmem
      rcases List.mem_append.mp hp with hp | hp
      · exact hold.pending p hp hex hmem
      · rw [List.mem_singleton.mp hp] at hmem
        obtain ⟨pointer, hpointer⟩ := FMap.mem_keys_iff.mp ((hperm _).mem_iff.mp hmem)
        obtain ⟨a, ha, hid, hkey, -⟩ := hold.marked hex pointer hpointer
        exact ⟨a, ha, hid, hkey, Or.inl rfl⟩
    · intro p hp r b hheld
      rcases List.mem_append.mp hp with hp | hp
      · exact hold.held p hp r b hheld
      · rw [List.mem_singleton.mp hp] at hheld
        cases hheld
  | startAnnounce content coin now now' =>
    have hmem : ⟨s.svc.selfId, content, coin⟩ ∈
        log ++ announcements s.svc.selfId (.startAnnounce content coin now now') := by
      simp [announcements]
    have hmade : MadeBy _ s.svc.toNodeProfile (s.svc.announcedRecord content coin now) :=
      .of_announce hmem now
    refine ⟨Node.sound_step h.sound _, ?_, ?_, ?_, hold.posted⟩
    · intro hex pointer hpointer
      simp only [Node.step, DhtService.storeAnnounced,
        ProviderStore.markAnnouncedWithCollateral, ProviderStore.announced_putAt,
        NodeProfile.announcedRecord_eq] at hpointer
      by_cases hk : hex = content.toKey.toHex
      · subst hk
        rw [AList.lookup_insert] at hpointer
        cases hpointer
        exact ⟨_, hmem, rfl, rfl, Or.inr rfl⟩
      · rw [AList.lookup_insert_ne hk] at hpointer
        exact hold.marked hex pointer hpointer
    · intro p hp hex hpending
      rcases List.mem_append.mp hp with hp | hp
      · exact hold.pending p hp hex hpending
      · rw [List.mem_singleton.mp hp] at hpending
        cases hpending
    · intro p hp r b hheld
      rcases List.mem_append.mp hp with hp | hp
      · exact hold.held p hp r b hheld
      · rw [List.mem_singleton.mp hp] at hheld
        cases hheld
        exact hmade
  | advance i now swarm =>
    have hsilent : announcements s.svc.selfId (.advance i now swarm) = [] := rfl
    rw [hsilent, List.append_nil]
    exact truthful_advance h i now swarm

/-- The record was handed to the node by the event: ingested, or added by
the provider itself. -/
def Given (record : ProviderRecord) : Event → Prop
  | .call x => x.1.op = .ingestVerifiedProvider record ∨
      ∃ caller, x.1.op = .handleRequestFrom caller (.addProvider record) ∧
        DhtService.namesAnother (caller.map Contact.peerId) record = false
  | _ => False

/-- What an event puts into the store the node makes, or it was given. -/
theorem Truthful.offered {log : List Announcement} {s : Node} (h : Truthful log s) {e : Event}
    {r : ProviderRecord} {now : Nat} (hr : StoreOp.putAt r now ∈ s.storeOps e) :
    MadeBy (log ++ announcements s.svc.selfId e) s.svc.toNodeProfile r ∨
      ∃ record, r = s.svc.clampedRecord record now ∧ Given record e := by
  cases e with
  | call x => exact h.put (DhtService.mem_storeOps_putAt hr)
  | startRepublish order hperm => cases hr
  | startAnnounce content coin now₀ now' =>
    left
    rcases List.mem_pair.mp hr with heq | heq <;> cases heq
    exact .of_announce (by simp [announcements]) now₀
  | advance i now' swarm =>
    left
    obtain ⟨q, hq, heq⟩ := List.mem_map.mp hr
    cases heq
    obtain ⟨p, hget, hunstored⟩ := Option.bind_eq_some_iff.mp (Option.mem_toList.mp hq)
    obtain ⟨b, hheld⟩ := Stage.held_of_unstored hunstored
    exact (h.held p (List.mem_of_getElem? hget) r b hheld).mono (List.subset_append_left _ _)

/-- What is so of the stored records and of what an event puts is so of
the records stored after it. -/
theorem forall_stored_event {s : Node} (h : s.svc.Valid) {e : Event} {Q : ProviderRecord → Prop}
    (hstored : ∀ k x y, s.svc.providers.entry k x = some y → Q y.record)
    (hput : ∀ r now, StoreOp.putAt r now ∈ s.storeOps e → Q r) :
    ∀ k x y, (s.step e).svc.providers.entry k x = some y → Q y.record := by
  intro k x y hy
  rw [Node.providers_step h] at hy
  rcases ProviderStore.entry_exec_cases hy with hold | ⟨r, now, hr, -, hrecord⟩
  · exact hstored k x y hold
  · rw [hrecord]
    exact hput r now hr

/-! ## §2 The network -/

/-- A delivery is the serving operation of the node. -/
theorem serveAt_eq (node : Node) (caller : Contact) (request : DhtRequest) (now : Nat)
    (world : World) : (serveAt node caller request now).1 =
      node.step (.call (.at now (.handleRequestFrom (some caller) request.norm), world)) := by
  simp [serveAt, Node.step, Service.step, Input.at, Output.quiet, stamped, addProviders]

/-- The records of an answer are read from the store. -/
theorem mem_records_serveAt {node : Node} {caller : Contact} {request : DhtRequest} {now : Nat}
    {response : DhtResponse} (h : (serveAt node caller request now).2 = some response) :
    ∀ r ∈ response.records, ∃ k x e, node.svc.providers.entry k x = some e ∧ e.record = r := by
  intro r hr
  have hreply := DhtService.replies_step node.svc
    (.at now (.handleRequestFrom (some caller) request.norm)) (tellingWorld .addProviderOk)
  have heq : (node.svc.handleRequestFrom now (some caller) request.norm).2 = some response := h
  simp only [Service.step, Input.at, Output.quiet, heq, Option.map_some, Option.getD_some] at hreply
  generalize hres : Reply.response response = reply at hreply
  cases hreply with
  | plain hplain =>
    subst hres
    cases response with
    | providers records closer => exact hplain.elim
    | nodes cs => cases hr
    | addProviderOk => cases hr
    | pong nonce => cases hr
    | error code message => cases hr
  | nodes hop hlearn key =>
    cases hres
    cases hr
  | providers hop hlearn key =>
    cases hres
    obtain ⟨routing, rfl⟩ := DhtService.rerouted_learnCaller hlearn
    obtain ⟨x, e, he, hrecord, -⟩ := ProviderStore.mem_get hr
    exact ⟨_, x, e, he, hrecord⟩
  | known target => cases hres
  | found peerId hop => cases hres
  | cached content => cases hres
  | returned content => cases hres
  | holders content => cases hres

/-- A `FindProviders` for a content key is answered with what the node
has, from the table it is left with. -/
theorem answer_findProviders {svc svc' : DhtService} {now : Nat} {caller : Option Contact}
    {key : Key} {response : DhtResponse}
    (h : svc.handleRequestFrom now caller (.findProviders key.toHex) = (svc', some response)) :
    response = .providers (svc.providers.get key.toHex now) (svc'.routing.closest key) := by
  unfold DhtService.handleRequestFrom at h
  cases hlearn : svc.learnCaller caller with
  | none =>
    rw [hlearn] at h
    cases h
  | some learnt =>
    obtain ⟨routing, rfl⟩ := DhtService.rerouted_learnCaller hlearn
    rw [hlearn] at h
    simp only [DhtService.answer, parseKey_toHex] at h
    cases h
    rfl

/-- The node an event happens at. -/
def SwarmEvent.peerId : SwarmEvent → String
  | .act peerId _ => peerId
  | .deliver _ peerId _ _ => peerId

/-- What it is for that node: a delivery is its serving operation. -/
def SwarmEvent.event : SwarmEvent → Event
  | .act _ e => e
  | .deliver caller _ request now =>
    .call (.at now (.handleRequestFrom (some caller) request.norm), tellingWorld .addProviderOk)

namespace SwarmRouter

/-- What happens in the network is the event `e'` of the node `peerId`, of
a delivery its serving operation. -/
structure Takes (net : SwarmRouter) (e : SwarmEvent) (peerId : String) (node : Node)
    (e' : Event) : Prop where
  here : net.nodes.lookup peerId = some node
  nodes : (net.step e).nodes = net.nodes.insert peerId (node.step e')
  announced : (net.step e).announced = net.announced ++ announcements peerId e'
  answered : (e = .act peerId e' ∧ (net.step e).answered = net.answered) ∨
    ∃ caller request now, e = .deliver caller peerId request now ∧
      e' = .call (.at now (.handleRequestFrom (some caller) request.norm),
        tellingWorld .addProviderOk) ∧
      (net.step e).answered = net.answered ++
        (serveAt node caller request now).2.toList.map
          fun res => ⟨caller, peerId, request, res⟩

/-- The node takes the event that is its own. -/
theorem Takes.own {net : SwarmRouter} {e : SwarmEvent} {peerId : String} {node : Node} {e' : Event}
    (h : net.Takes e peerId node e') : e.peerId = peerId ∧ e.event = e' := by
  rcases h.answered with ⟨rfl, -⟩ | ⟨caller, request, now, rfl, rfl, -⟩ <;> exact ⟨rfl, rfl⟩

/-- An event leaves the network alone, or one node takes it. -/
theorem step_cases (net : SwarmRouter) (e : SwarmEvent) :
    net.step e = net ∨ ∃ peerId node e', net.Takes e peerId node e' := by
  cases e with
  | act peerId e' =>
    cases hnode : net.nodes.lookup peerId with
    | none => exact Or.inl (by simp [step, hnode])
    | some node =>
      exact Or.inr ⟨peerId, node, e', hnode, by simp [step, hnode], by simp [step, hnode],
        Or.inl ⟨rfl, by simp [step, hnode]⟩⟩
  | deliver caller peerId request now =>
    cases hnode : net.nodes.lookup peerId with
    | none => exact Or.inl (by simp [step, hnode])
    | some node =>
      refine Or.inr ⟨peerId, node, _, hnode, ?_, ?_,
        Or.inr ⟨caller, request, now, rfl, rfl, by simp [step, hnode]⟩⟩
      · rw [← serveAt_eq]
        simp [step, hnode]
      · simp [step, hnode, announcements, Input.at]

omit [Deps] in
/-- What holds of every node but one and of that one after its event,
holds of every node after the event. -/
theorem forall_moved {net net' : SwarmRouter} {peerId : String} {s : Node}
    (hnodes : net'.nodes = net.nodes.insert peerId s) {Q : String → Node → Prop}
    (hold : ∀ id node, net.nodes.lookup id = some node → Q id node) (hnew : Q peerId s) :
    ∀ id node, net'.nodes.lookup id = some node → Q id node := by
  intro id node hnode
  rw [hnodes] at hnode
  by_cases hid : id = peerId
  · subst hid
    rw [AList.lookup_insert] at hnode
    cases hnode
    exact hnew
  · rw [AList.lookup_insert_ne hid] at hnode
    exact hold id node hnode

/-- `r`, where it names a node of the network, is made by that node. -/
def Genuine (net : SwarmRouter) (r : ProviderRecord) : Prop :=
  ∀ peerId node, net.nodes.lookup peerId = some node → r.provider = some node.svc.localId →
    MadeBy net.announced node.svc.toNodeProfile r

theorem genuine_iff_entries {net : SwarmRouter} {r : ProviderRecord} :
    net.Genuine r ↔ ∀ s ∈ net.nodes.entries, r.provider = some s.2.svc.localId →
      MadeBy net.announced s.2.svc.toNodeProfile r :=
  ⟨fun h s hs => h s.1 s.2 (FMap.mk_mem_entries.mp hs),
    fun h peerId node hnode => h ⟨peerId, node⟩ (FMap.mk_mem_entries.mpr hnode)⟩

instance (net : SwarmRouter) (r : ProviderRecord) : Decidable (net.Genuine r) :=
  decidable_of_iff _ genuine_iff_entries.symm

/-- Who calls is who it says, and what a node adds it has sent. -/
def Vouched (net : SwarmRouter) (caller : Contact) (request : DhtRequest) : Prop :=
  ∀ peerId node, net.nodes.lookup peerId = some node → caller.peer = some node.svc.localId →
    caller.peerId = peerId ∧ ∀ record ∈ request.record, ∃ m ∈ node.posted, m.record = record

theorem vouched_iff_entries {net : SwarmRouter} {caller : Contact} {request : DhtRequest} :
    net.Vouched caller request ↔
      ∀ s ∈ net.nodes.entries, caller.peer = some s.2.svc.localId → caller.peerId = s.1 ∧
        ∀ record ∈ request.record, ∃ m ∈ s.2.posted, m.record = record :=
  ⟨fun h s hs => h s.1 s.2 (FMap.mk_mem_entries.mp hs),
    fun h id node hnode => h ⟨id, node⟩ (FMap.mk_mem_entries.mpr hnode)⟩

instance (net : SwarmRouter) (caller : Contact) (request : DhtRequest) :
    Decidable (net.Vouched caller request) :=
  decidable_of_iff _ vouched_iff_entries.symm

/-- What mTLS and the verification before an ingest give. A node serves
deliveries only; who calls as a node of the network is that node, and
what it adds it has sent; what is ingested is genuine. -/
def Authentic (net : SwarmRouter) : SwarmEvent → Prop
  | .act _ (.call x) =>
    servedBy x.1.op = none ∧ ∀ record ∈ ingestedBy x.1.op, net.Genuine record.normalized
  | .act _ _ => True
  | .deliver caller _ request _ => net.Vouched caller request

instance (net : SwarmRouter) : ∀ e, Decidable (net.Authentic e)
  | .act _ (.call _) => inferInstanceAs (Decidable (_ ∧ _))
  | .act _ (.startRepublish _ _) | .act _ (.startAnnounce _ _ _ _) | .act _ (.advance _ _ _) =>
    isTrue trivial
  | .deliver caller _ request _ => inferInstanceAs (Decidable (net.Vouched caller request))

/-- What holds of a network whose events are authentic. -/
structure Provenance (net : SwarmRouter) : Prop where
  keyed : ∀ peerId node, net.nodes.lookup peerId = some node → peerId = node.svc.selfId
  truthful : ∀ peerId node, net.nodes.lookup peerId = some node → Truthful net.announced node
  stored : ∀ peerId node, net.nodes.lookup peerId = some node →
    ∀ k x e, node.svc.providers.entry k x = some e → net.Genuine e.record
  answered : ∀ e ∈ net.answered, ∀ r ∈ e.response.records, net.Genuine r

theorem provenance_fresh {net : SwarmRouter} (h : net.Fresh) : net.Provenance where
  keyed peerId node hnode := by
    obtain ⟨localId, addresses, config, hid, rfl⟩ := h.nodes peerId node hnode
    exact hid
  truthful peerId node hnode := by
    obtain ⟨localId, addresses, config, -, rfl⟩ := h.nodes peerId node hnode
    exact truthful_start _ localId addresses config
  stored peerId node hnode := by
    obtain ⟨localId, addresses, config, -, rfl⟩ := h.nodes peerId node hnode
    simp [Node.start, DhtService.new, ProviderStore.withLimits, ProviderStore.entry]
  answered := by simp [h.answered]

/-- The expiry does not matter. -/
theorem Genuine.expiring {net : SwarmRouter} {r : ProviderRecord} (h : net.Genuine r)
    (expiresAt : Nat) : net.Genuine { r with expiresAt } :=
  fun peerId node hnode hprovider => (h peerId node hnode hprovider).expiring expiresAt

/-- What a node makes is genuine: it names that node and no other. -/
theorem genuine_of_madeBy [LawfulPeerIdHex] {net : SwarmRouter}
    (hkeyed : ∀ peerId node, net.nodes.lookup peerId = some node → peerId = node.svc.selfId)
    {peerId : String} {node : Node} (hnode : net.nodes.lookup peerId = some node)
    {r : ProviderRecord} (hr : MadeBy net.announced node.svc.toNodeProfile r) :
    net.Genuine r := by
  intro peerId' node' hnode' hprovider
  have hlocal : r.provider = some node.svc.localId := by
    rw [ProviderRecord.provider, hr.spelled]
    exact LawfulPeerIdHex.fromHex_toHex _
  have hsame : node'.svc.localId = node.svc.localId := by
    rw [hlocal] at hprovider
    exact (Option.some.inj hprovider).symm
  have hid : peerId' = peerId := by
    rw [hkeyed peerId' node' hnode', hkeyed peerId node hnode, NodeProfile.selfId, hsame]
    rfl
  subst hid
  rw [hnode] at hnode'
  cases hnode'
  exact hr

/-- What an authentic delivery adds is genuine. -/
theorem Provenance.genuine_added {net : SwarmRouter} (h : net.Provenance) {caller : Contact}
    {peerId : String} {request : DhtRequest} {now : Nat}
    (he : net.Authentic (.deliver caller peerId request now)) {record : ProviderRecord}
    (hrecord : request.norm = .addProvider record)
    (hown : DhtService.namesAnother (some caller.peerId) record = false) :
    net.Genuine record.normalized := by
  cases request with
  | addProvider r =>
    cases hrecord
    have hshaped := normalized_of_shaped r.shaped_normalized
    rw [hshaped]
    intro id node hnode hprovider
    have hcaller : caller.peerId = r.providerPeerId := by
      by_contra hother
      simp [DhtService.namesAnother, hother] at hown
    have hpeer : caller.peer = some node.svc.localId := by
      rw [Contact.peer, hcaller]
      exact hprovider
    obtain ⟨-, hadded⟩ := he id node hnode hpeer
    obtain ⟨m, hm, rfl⟩ := hadded r rfl
    have hmade := (h.truthful id node hnode).posted m hm
    rwa [normalized_of_shaped hmade.shaped]
  | findNode target => cases hrecord
  | findProviders contentKey => cases hrecord
  | ping nonce => cases hrecord

/-- The nodes keep their profiles, and no announce is forgotten. -/
structure Extends (net net' : SwarmRouter) : Prop where
  profiles : ∀ peerId node', net'.nodes.lookup peerId = some node' →
    ∃ node, net.nodes.lookup peerId = some node ∧
      node'.svc.toNodeProfile = node.svc.toNodeProfile
  announced : net.announced ⊆ net'.announced

theorem Extends.genuine {net net' : SwarmRouter} (h : Extends net net') {r : ProviderRecord}
    (hr : net.Genuine r) : net'.Genuine r := by
  intro peerId node' hnode' hprovider
  obtain ⟨node, hnode, hprofile⟩ := h.profiles peerId node' hnode'
  have hlocal : node'.svc.localId = node.svc.localId := congrArg NodeProfile.localId hprofile
  rw [hprofile]
  exact (hr peerId node hnode (hlocal ▸ hprovider)).mono h.announced

/-- One node taking an event of its own. -/
theorem extends_moved {net net' : SwarmRouter} {peerId : String} {node : Node} {e : Event}
    (hsound : node.Sound) (hnode : net.nodes.lookup peerId = some node)
    (hnodes : net'.nodes = net.nodes.insert peerId (node.step e))
    (hlog : net'.announced = net.announced ++ announcements peerId e) : Extends net net' := by
  refine ⟨?_, by simp [hlog]⟩
  intro peerId' node' hnode'
  rw [hnodes] at hnode'
  by_cases hid : peerId' = peerId
  · subst hid
    rw [AList.lookup_insert] at hnode'
    cases hnode'
    exact ⟨node, hnode, Node.profile_step hsound e⟩
  · rw [AList.lookup_insert_ne hid] at hnode'
    exact ⟨node', hnode', rfl⟩

theorem extends_step {net : SwarmRouter} (h : net.Provenance) (e : SwarmEvent) :
    Extends net (net.step e) := by
  rcases net.step_cases e with hsame | ⟨peerId, node, e', hnode, hnodes, hlog, -⟩
  · rw [hsame]
    exact ⟨fun peerId node hnode => ⟨node, hnode, rfl⟩, List.Subset.refl _⟩
  · exact extends_moved (h.truthful peerId node hnode).sound hnode hnodes hlog

theorem keyed_step {net : SwarmRouter} (h : net.Provenance) (e : SwarmEvent) :
    ∀ peerId node, (net.step e).nodes.lookup peerId = some node → peerId = node.svc.selfId := by
  intro peerId node hnode
  obtain ⟨old, hold, hprofile⟩ := (extends_step h e).profiles peerId node hnode
  rw [h.keyed peerId old hold, NodeProfile.selfId, NodeProfile.selfId, hprofile]

/-- What an event puts into a store is genuine. -/
theorem Provenance.offered [LawfulPeerIdHex] {net : SwarmRouter} (h : net.Provenance)
    {e : SwarmEvent} (he : net.Authentic e) {peerId : String} {node : Node} {e' : Event}
    (htakes : net.Takes e peerId node e') {r : ProviderRecord} {now : Nat}
    (hput : StoreOp.putAt r now ∈ node.storeOps e') : (net.step e).Genuine r := by
  have hid := h.keyed peerId node htakes.here
  have htruthful := h.truthful peerId node htakes.here
  rcases htruthful.offered hput with hmade | ⟨record, rfl, hop⟩
  · have hself : (net.step e).nodes.lookup peerId = some (node.step e') := by
      rw [htakes.nodes, AList.lookup_insert]
    refine genuine_of_madeBy (keyed_step h e) hself ?_
    rw [Node.profile_step htruthful.sound e', htakes.announced, hid]
    exact hmade
  · refine Genuine.expiring ((extends_step h e).genuine ?_) _
    rcases htakes.answered with ⟨rfl, -⟩ | ⟨caller, request, t, rfl, rfl, -⟩
    · cases e' with
      | call x =>
        rcases hop with hop | ⟨caller, hop, -⟩
        · exact he.2 record (by rw [hop]; rfl)
        · have hserved := he.1
          rw [hop] at hserved
          cases hserved
      | startRepublish order hperm => exact hop.elim
      | startAnnounce content coin now now' => exact hop.elim
      | advance i now swarm => exact hop.elim
    · rcases hop with hop | ⟨caller', hop, hown⟩
      · cases hop
      · injection hop with hcaller hrecord
        subst hcaller
        exact h.genuine_added he hrecord hown

theorem provenance_step [LawfulPeerIdHex] {net : SwarmRouter} (h : net.Provenance)
    {e : SwarmEvent} (he : net.Authentic e) : (net.step e).Provenance := by
  rcases net.step_cases e with hsame | ⟨peerId, node, e', htakes⟩
  · rwa [hsame]
  have ⟨hnode, hnodes, hlog, hevent⟩ := htakes
  have htruthful := h.truthful peerId node hnode
  have hext : Extends net (net.step e) := extends_step h e
  have hmoved : Truthful (net.step e).announced (node.step e') := by
    rw [hlog, h.keyed peerId node hnode]
    exact truthful_step htruthful e'
  refine ⟨keyed_step h e, ?_, ?_, ?_⟩
  · exact forall_moved hnodes (fun id s hs => (h.truthful id s hs).mono hext.announced) hmoved
  · refine forall_moved hnodes
      (fun id s hs k x y hy => hext.genuine (h.stored id s hs k x y hy)) ?_
    exact forall_stored_event htruthful.sound.valid
      (fun k x y hy => hext.genuine (h.stored peerId node hnode k x y hy))
      fun r now hput => h.offered he htakes hput
  · intro exchange hmem r hr
    rcases hevent with ⟨-, hanswered⟩ | ⟨caller, request, t, -, -, hanswered⟩
    · rw [hanswered] at hmem
      exact hext.genuine (h.answered exchange hmem r hr)
    · rw [hanswered] at hmem
      rcases List.mem_append.mp hmem with hold | hnew
      · exact hext.genuine (h.answered exchange hold r hr)
      · obtain ⟨res, hres, rfl⟩ := List.mem_map.mp hnew
        obtain ⟨k, x, y, hy, rfl⟩ := mem_records_serveAt (Option.mem_toList.mp hres) r hr
        exact hext.genuine (h.stored peerId node hnode k x y hy)

theorem Provenance.posted [LawfulPeerIdHex] {net : SwarmRouter} (h : net.Provenance)
    {peerId : String} {node : Node} (hnode : net.nodes.lookup peerId = some node) :
    ∀ m ∈ node.posted, net.Genuine m.record :=
  fun m hm => genuine_of_madeBy h.keyed hnode ((h.truthful peerId node hnode).posted m hm)

/-- Nothing stored, sent or answered is forged. -/
structure Unforged (net : SwarmRouter) : Prop where
  stored : ∀ peerId node, net.nodes.lookup peerId = some node →
    ∀ k x e, node.svc.providers.entry k x = some e → net.Genuine e.record
  posted : ∀ peerId node, net.nodes.lookup peerId = some node →
    ∀ m ∈ node.posted, net.Genuine m.record
  answered : ∀ e ∈ net.answered, ∀ r ∈ e.response.records, net.Genuine r

/-- **Nobody speaks for a node.** Where callers are who they say they are
and what is ingested was verified, no record that names a node is stored,
on its way or in an answer unless that node announced its content and
made it. -/
theorem no_forgery [LawfulPeerIdHex] {net : SwarmRouter} (hfresh : net.Fresh)
    {run : List SwarmEvent} (hrun : EachStep step Authentic net run) :
    Always step Unforged net run := by
  have hall : Always step Provenance net run :=
    always_of_eachStep (fun _ _ h he => provenance_step h he) (provenance_fresh hfresh) hrun
  exact hall.imp fun net h => ⟨h.stored, fun peerId node hnode => h.posted hnode, h.answered⟩

/-! ## §3 Answers from nodes -/

/-- What the transport says to a lookup, the node asked has answered. -/
def Relays (net : SwarmRouter) (swarm : Swarm) : Prop :=
  ∀ asked c contentKey response,
    swarm.rpc asked c (.findProviders contentKey) = some response →
      ∃ e ∈ net.answered, e.callee = c.peerId ∧ e.request = .findProviders contentKey ∧
        response = e.response.norm

/-- Lookups are told what nodes answered. -/
def AnsweredByNodes (net : SwarmRouter) : SwarmEvent → Prop
  | .act _ (.call x) => ∀ i, net.Relays (x.2.swarms i)
  | .act _ (.advance _ _ swarm) => net.Relays swarm
  | _ => True

theorem Relays.mono {net net' : SwarmRouter} {swarm : Swarm} (h : net.Relays swarm)
    (hlog : net.answered ⊆ net'.answered) : net'.Relays swarm := by
  intro asked c key response hresponse
  obtain ⟨e, he, hrest⟩ := h asked c key response hresponse
  exact ⟨e, hlog he, hrest⟩

/-- There is such a transport. -/
theorem relays_relay (net : SwarmRouter) : net.Relays net.relay := by
  intro asked c key response hresponse
  obtain ⟨e, hfound, rfl⟩ := Option.map_eq_some_iff.mp hresponse
  have hmatch := List.find?_some hfound
  obtain ⟨hcallee, hrequest⟩ := of_decide_eq_true hmatch
  exact ⟨e, List.mem_reverse.mp (List.mem_of_find?_eq_some hfound), hcallee, hrequest, rfl⟩

/-- A reply that names a node of the network as a provider names one that
announced the content asked about. -/
def TrueReply (net : SwarmRouter) (op : Op) : Reply → Prop
  | .records rs => ∀ content, op = .findProviders content ∨ op = .cachedProviders content →
      ∀ r ∈ rs, r.contentKey = content.toKey.toHex ∧ net.Genuine r
  | .holders ps => ∀ content, op = .holdersOf content →
      ∀ peerId node, net.nodes.lookup peerId = some node → node.svc.localId ∈ ps →
        Announced net.announced node.svc.selfId content.toKey.toHex none
  | _ => True

/-- The event, if it is an operation of a node's client, gets a true reply. -/
def TrueReplies (net : SwarmRouter) (e : SwarmEvent) : Prop :=
  ∀ peerId node x, e = .act peerId (.call x) → net.nodes.lookup peerId = some node →
    net.TrueReply x.1.op (Service.step node.svc x.1 x.2).2.reply

/-- Every cached record is genuine. -/
def CachesGenuine (net : SwarmRouter) : Prop :=
  ∀ peerId node, net.nodes.lookup peerId = some node →
    ∀ k x e, node.svc.discovered.entry k x = some e → net.Genuine e.record

theorem cachesGenuine_fresh {net : SwarmRouter} (h : net.Fresh) : net.CachesGenuine := by
  intro peerId node hnode
  obtain ⟨localId, addresses, config, -, rfl⟩ := h.nodes peerId node hnode
  simp [Node.start, DhtService.new, ProviderStore.withLimits, ProviderStore.entry]

theorem Genuine.normalized {net : SwarmRouter} {r : ProviderRecord} (h : net.Genuine r) :
    net.Genuine r.normalized := by
  intro peerId node hnode hprovider
  have hmade := h peerId node hnode hprovider
  rwa [normalized_of_shaped hmade.shaped]

/-- What lookups are told is a record some node answered with, as it
comes off the wire. -/
theorem Relays.carried {net : SwarmRouter} {swarm : Swarm} (h : net.Relays swarm)
    {q : ProviderRecord} (hq : swarm.Carries q) :
    ∃ e ∈ net.answered, ∃ r ∈ e.response.records, q = r.normalized := by
  obtain ⟨asked, c, key, response, hresponse, hmem⟩ := hq
  obtain ⟨e, he, -, -, rfl⟩ := h asked c key response hresponse
  cases hres : e.response with
  | providers records closer =>
    rw [hres] at hmem
    obtain ⟨r, hr, rfl⟩ := List.mem_map.mp hmem
    exact ⟨e, he, r, by rw [hres]; exact hr, rfl⟩
  | nodes cs => rw [hres] at hmem; cases hmem
  | addProviderOk => rw [hres] at hmem; cases hmem
  | pong nonce => rw [hres] at hmem; cases hmem
  | error code message => rw [hres] at hmem; cases hmem

/-- What is so of the cached records, and of what nodes answered once it
is normalised and lasts no longer, is so of the records cached after an
event. -/
theorem forall_cached_step {net : SwarmRouter} {Q : ProviderRecord → Prop}
    {e : SwarmEvent} (he : net.AnsweredByNodes e)
    (hold : ∀ peerId node, net.nodes.lookup peerId = some node →
      ∀ k x y, node.svc.discovered.entry k x = some y → Q y.record)
    (hnew : ∀ exchange ∈ net.answered, ∀ r ∈ exchange.response.records,
      ∀ expiresAt ≤ r.expiresAt, Q { r.normalized with expiresAt }) :
    ∀ peerId node, (net.step e).nodes.lookup peerId = some node →
      ∀ k x y, node.svc.discovered.entry k x = some y → Q y.record := by
  rcases net.step_cases e with hsame | ⟨peerId, s, e', hs, hnodes, -, hevent⟩
  · rwa [hsame]
  refine forall_moved hnodes hold ?_
  have hcached := hold peerId s hs
  rcases hevent with ⟨rfl, -⟩ | ⟨caller, request, now, -, rfl, -⟩
  · cases e' with
    | call x =>
      refine DhtService.forall_cached_step hcached ?_
      intro q contentKey now entry hcarried hentry
      obtain ⟨expiresAt, hle, rfl⟩ := DhtService.cacheEntry_eq hentry
      obtain ⟨exchange, hexchange, r, hr, rfl⟩ := (he 0).carried hcarried
      have hidem : ∀ r : ProviderRecord, r.normalized.normalized = r.normalized :=
        fun r => normalized_of_shaped r.shaped_normalized
      rw [hidem, hidem]
      exact hnew exchange hexchange r hr expiresAt hle
    | startRepublish order hperm => exact hcached
    | startAnnounce content coin now now' => exact hcached
    | advance i now swarm =>
      simp only [Node.step]
      cases hget : s.running[i]? with
      | none => exact hcached
      | some p =>
        rcases p.window_svc s.svc s.time now swarm with heq | ⟨r, -, heq⟩ | ⟨cs, heq⟩ <;>
          simp only [heq] <;> exact hcached
  · intro k x y hy
    have hkept := DhtService.discovered_handleRequestFrom s.svc now (some caller) request.norm
    simp only [Node.step, Service.step, Input.at] at hy
    rw [hkept] at hy
    exact hcached k x y hy

theorem cachesGenuine_step {net : SwarmRouter} (h : net.Provenance)
    (hcached : net.CachesGenuine) {e : SwarmEvent} (he : net.AnsweredByNodes e) :
    (net.step e).CachesGenuine := by
  have hext : Extends net (net.step e) := extends_step h e
  exact forall_cached_step he
    (fun peerId node hnode k x y hy => hext.genuine (hcached peerId node hnode k x y hy))
    fun exchange hexchange r hr expiresAt _ =>
      (hext.genuine (h.answered exchange hexchange r hr)).normalized.expiring expiresAt

/-- What a node hands out of its stores and of a lookup. -/
theorem Provenance.returned {net : SwarmRouter} (h : net.Provenance) (hcached : net.CachesGenuine)
    {peerId : String} {node : Node} (hnode : net.nodes.lookup peerId = some node)
    {clock : Nat → Nat} {swarm : Swarm} (hswarm : net.Relays swarm) {content : ContentId}
    {r : ProviderRecord} (hr : r ∈ (node.svc.findProviders clock swarm content).2.1) :
    r.contentKey = content.toKey.toHex ∧ net.Genuine r := by
  refine ⟨DhtService.contentKey_of_returned (h.truthful peerId node hnode).sound.valid hr, ?_⟩
  obtain ⟨-, hlocal | hfound | ⟨q, hq, rfl⟩⟩ := DhtService.mem_returned hr
  · obtain ⟨x, e, he, rfl, -⟩ := ProviderStore.mem_get hlocal
    exact h.stored peerId node hnode _ x e he
  · obtain ⟨x, e, he, rfl, -⟩ := ProviderStore.mem_get hfound
    exact hcached peerId node hnode _ x e he
  · obtain ⟨e, he, r, hr', rfl⟩ := hswarm.carried (DhtService.mem_providers_runLookup hq).1
    exact (h.answered e he r hr').normalized.normalized

theorem trueReply_step {net : SwarmRouter} (h : net.Provenance) (hcached : net.CachesGenuine)
    {peerId : String} {node : Node} (hnode : net.nodes.lookup peerId = some node)
    {x : Input × World} (he : net.AnsweredByNodes (.act peerId (.call x))) :
    net.TrueReply x.1.op (Service.step node.svc x.1 x.2).2.reply := by
  obtain ⟨⟨op, clock, order, hperm⟩, world⟩ := x
  cases hreply : (Service.step node.svc ⟨op, clock, order, hperm⟩ world).2.reply with
  | records rs =>
    rintro content (rfl | rfl) r hr
    · cases hreply
      exact h.returned hcached hnode (he 0) hr
    · cases hreply
      obtain ⟨y, e, hentry, hrecord, -⟩ := ProviderStore.mem_get hr
      refine ⟨DhtService.contentKey_of_get (h.truthful peerId node hnode).sound.valid.discovered hr,
        ?_⟩
      rw [← hrecord]
      exact hcached peerId node hnode _ y e hentry
  | holders ps =>
    intro content hop id node' hnode' hmem
    subst hop
    cases hreply
    obtain ⟨r, hr, hprovider⟩ := List.mem_filterMap.mp hmem
    obtain ⟨hkey, hgenuine⟩ := h.returned hcached hnode (he 0) hr
    obtain ⟨a, ha, hid, hcontent, -⟩ := (hgenuine id node' hnode' hprovider).announced
    exact ⟨a, ha, hid, hcontent.trans hkey, Or.inl rfl⟩
  | unit => trivial
  | flag b => trivial
  | count n => trivial
  | contacts cs => trivial
  | put outcome => trivial
  | snapshot t => trivial
  | response res => trivial
  | noPeers => trivial
  | panicked => trivial

/-- **Nobody is found that did not announce.** Where deliveries are
authentic, what is ingested was verified, and lookups are told what nodes
answered, every discovery cache is genuine throughout, and what
`find_providers`, `cached_providers` and `holders_of` say of a node of the
network is true of it. -/
theorem found_announced [LawfulPeerIdHex] {net : SwarmRouter} (hfresh : net.Fresh)
    {run : List SwarmEvent}
    (hrun : EachStep step (fun net e => net.Authentic e ∧ net.AnsweredByNodes e) net run) :
    Always step CachesGenuine net run ∧ EachStep step TrueReplies net run := by
  have hstart : net.Provenance ∧ net.CachesGenuine :=
    ⟨provenance_fresh hfresh, cachesGenuine_fresh hfresh⟩
  have hkeep : ∀ (net : SwarmRouter) (e : SwarmEvent), net.Provenance ∧ net.CachesGenuine →
      net.Authentic e ∧ net.AnsweredByNodes e →
        (net.step e).Provenance ∧ (net.step e).CachesGenuine :=
    fun net e h he => ⟨provenance_step h.1 he.1, cachesGenuine_step h.1 h.2 he.2⟩
  constructor
  · exact (always_of_eachStep hkeep hstart hrun).imp fun net h => h.2
  · refine hrun.imp hkeep ?_ hstart
    rintro net e h he peerId node x rfl hnode
    exact trueReply_step h.1 h.2 hnode he.2

end SwarmRouter

end Provenance

/-! ### Three nodes -/

section Samples

attribute [local instance] sampleDeps

/-- Peers 9, 211 and 1, with one contact to a bucket. -/
def sampleRouter : SwarmRouter :=
  ([9, 211, 1] : List UInt8).foldl
    (fun net first => net.add (.new (samplePeer first) [] { DhtConfig.default with k := 1 })) .new

theorem fresh_sampleRouter : sampleRouter.Fresh :=
  ((SwarmRouter.fresh_new.add _ _ _).add _ _ _).add _ _ _

def sampleId (first : UInt8) : String :=
  (Service.sampleContact first).peerId

def delivery (caller callee : UInt8) (request : DhtRequest) (now : Nat) : SwarmEvent :=
  .deliver (Service.sampleContact caller) (sampleId callee) request now

/-- Every node calls every other. -/
def meetings : List SwarmEvent :=
  ([(9, 211), (9, 1), (211, 9), (211, 1), (1, 9), (1, 211)] : List (UInt8 × UInt8)).map
    fun pair => delivery pair.1 pair.2 (.ping 7) 100

/-- A node asks peer 211, the nearest to the sample content. -/
def asks (caller : UInt8) (key : Key) (now : Nat) : SwarmEvent :=
  delivery caller 211 (.findProviders key.toHex) now

/-- What a node meets that hears what was answered in a run. -/
def hearing (run : List SwarmEvent) : World :=
  { tellingWorld .addProviderOk with
    swarms := fun _ => (exec SwarmRouter.step sampleRouter run).relay }

/-- Peer 9 announces the sample content, and its record reaches peer 211. -/
def announcing : List SwarmEvent :=
  [asks 9 sampleContent.toKey 100,
    .act (sampleId 9) (.call (.at 100 (.announceProvider sampleContent),
      hearing (meetings ++ [asks 9 sampleContent.toKey 100]))),
    delivery 9 211 (.addProvider (sampleRecord 9 7300)) 110]

/-- Peer 1 finds it. -/
def finding : List SwarmEvent :=
  [asks 1 sampleContent.toKey 200,
    .act (sampleId 1) (.call (.at 200 (.findProviders sampleContent),
      hearing (meetings ++ announcing ++ [asks 1 sampleContent.toKey 200])))]

namespace SwarmRouter

/-- A stranger's record that names peer 9 reaches peer 211 before the
announce does. -/
theorem no_forgery_three :
    Always step Unforged sampleRouter
      (delivery 77 211 (.addProvider (sampleRecord 9 9999)) 90 :: (meetings ++ announcing)) :=
  no_forgery fresh_sampleRouter (by decide +kernel)

theorem answered_announcing :
    EachStep step AnsweredByNodes sampleRouter (meetings ++ announcing) := by
  have hmeetings : EachStep step AnsweredByNodes sampleRouter meetings :=
    eachStep_of_invariant (I := fun _ => True) (fun _ _ _ _ => trivial)
      (fun net e he _ => by
        obtain ⟨pair, -, rfl⟩ := List.mem_map.mp he
        trivial) trivial
  refine eachStep_append.mpr ⟨hmeetings, trivial, fun i => ?_, trivial, trivial⟩
  show (step (exec step sampleRouter meetings) (asks 9 sampleContent.toKey 100)).Relays
    (exec step sampleRouter (meetings ++ [asks 9 sampleContent.toKey 100])).relay
  rw [exec_append]
  exact relays_relay _

/-- What peer 1 finds is true. -/
theorem found_announced_three :
    let run := meetings ++ announcing ++ finding
    Always step CachesGenuine sampleRouter run ∧ EachStep step TrueReplies sampleRouter run := by
  intro run
  have hanswered : EachStep step AnsweredByNodes sampleRouter run := by
    refine eachStep_append.mpr ⟨answered_announcing, trivial, fun i => ?_, trivial⟩
    show (step (exec step sampleRouter (meetings ++ announcing))
      (asks 1 sampleContent.toKey 200)).Relays (exec step sampleRouter
        (meetings ++ announcing ++ [asks 1 sampleContent.toKey 200])).relay
    rw [exec_append]
    exact relays_relay _
  have hauthentic : EachStep step Authentic sampleRouter run := by decide +kernel
  exact found_announced fresh_sampleRouter (hauthentic.and hanswered)

end SwarmRouter

end Samples

end DigDht.Network
