/-
DigDht.Network.RoutingTheorems — in a network that has met, a lookup
finds the nearest nodes.

A network is CLOSED if its nodes deal with each other only. Then no
routing table holds anybody else (`Peopled`, §1). §2 follows what nodes
have met: who calls or is added is covered by the table from then on, as
long as nothing is removed, and what a covering table answers shows the
way (`guides_closest`). So once every node has met every other, each
answer a lookup gets guides it, and `find_node` returns exactly the `k`
nodes nearest to its target, whatever has happened in between and in
whatever order (`find_node_exact`). An announce then sends its record to
exactly these (`announce_targets`).
-/
import DigDht.Lookup.RoutedTheorems
import DigDht.Network.ProvenanceTheorems
import DigDht.Service.IdentityTheorems
import DigDht.Service.RetentionTheorems

namespace DigDht.Network

open Keyspace Record Routing Lookup Store Wire Content Service Runs

section Routing

variable [Deps]

/-! ## §1 A closed network -/

/-- The contacts a publication goes on with. -/
def closestOf : Stage → List Contact
  | .found _ _ _ closest => closest
  | .sending _ _ _ peers => peers
  | _ => []

/-- A node that knows members only. -/
structure Peopled (N : Lookup.Network) (s : Node) : Prop where
  sound : s.Sound
  k_eq : s.svc.routing.k = s.svc.config.k
  unique : Unique s.svc.routing
  table : ∀ c ∈ s.svc.routing.contacts, c.peerId ∈ N.ids
  closest : ∀ p ∈ s.running, ∀ c ∈ closestOf p.stage, c.peerId ∈ N.ids

theorem peopled_start (N : Lookup.Network) (localId : PeerId) (addresses : List CandidateAddr)
    (config : DhtConfig) : Peopled N (Node.start (.new localId addresses config)) where
  sound := Node.sound_start (DhtService.valid_new localId addresses config)
  k_eq := rfl
  unique := by simp [Routing.Unique, Node.start, DhtService.new, KBucket.new]
  table := by simp [Node.start, DhtService.new]
  closest := by simp [Node.start]

/-- What a window of a publication does with contacts: it absorbs those it
goes on with, or keeps some of them, or runs a lookup. -/
theorem window_closest (svc : DhtService) (time now : Nat) (swarm : Swarm) (p : Publication) :
    ((p.window svc time now swarm).1.routing = svc.routing ∨
      (p.window svc time now swarm).1 = svc.absorbContacts (closestOf p.stage)) ∧
    ∀ c ∈ closestOf (p.window svc time now swarm).2.1.stage, c ∈ closestOf p.stage ∨
      ∃ target, c ∈ ((svc.runLookup swarm target (svc.seedContacts target) false).1.result
        svc.config.k).closest := by
  obtain ⟨pending, stage⟩ := p
  cases stage with
  | idle =>
    cases pending with
    | nil => exact ⟨Or.inl rfl, fun c hc => Or.inl hc⟩
    | cons hex rest =>
      simp only [Publication.window]
      cases parseKey hex <;> exact ⟨Or.inl rfl, fun c hc => by cases hc⟩
  | built target r b => exact ⟨Or.inl rfl, fun c hc => by cases hc⟩
  | stored target r b =>
    simp only [Publication.window]
    split
    · exact ⟨Or.inl rfl, fun c hc => by cases hc⟩
    · exact ⟨Or.inl rfl, fun c hc => Or.inr ⟨target, hc⟩⟩
  | found target r b closest =>
    exact ⟨Or.inr rfl, fun c hc => Or.inl (List.mem_of_mem_filter hc)⟩
  | sending target r b peers =>
    cases peers with
    | nil => exact ⟨Or.inl rfl, fun c hc => by cases hc⟩
    | cons peer peers => exact ⟨Or.inl rfl, fun c hc => Or.inl (List.mem_cons_of_mem peer hc)⟩

/-- An event that brings a node nobody but members. -/
def MeetsMembers (N : Lookup.Network) : Event → Prop
  | .call x => ∀ c, DhtService.Hears x.1 x.2 c → c.peerId ∈ N.ids
  | .advance _ _ swarm => ∀ c, swarm.Names c → c.peerId ∈ N.ids
  | _ => True

theorem Moves.k_eq {K : Contact → Prop} {t t' : RoutingTable} (h : DhtService.Moves K t t') :
    t'.k = t.k :=
  Reach.invariant (Q := fun u : RoutingTable => u.k = t.k)
    (fun u op hu _ => (k_step u op).trans hu) h rfl

theorem peopled_step {N : Lookup.Network} {s : Node} (h : Peopled N s) {e : Event}
    (he : MeetsMembers N e) : Peopled N (s.step e) := by
  have hsound := Node.sound_step h.sound e
  have hconfig : (s.step e).svc.config = s.svc.config :=
    congrArg NodeProfile.config (Node.profile_step h.sound e)
  cases e with
  | call x =>
    have hmoves : DhtService.Moves (fun c => c.peerId ∈ N.ids) s.svc.routing
        (Service.step s.svc x.1 x.2).1.routing :=
      DhtService.moves_step (fun _ hc => hc) h.table he
    refine ⟨hsound, ?_, hmoves.unique h.unique, hmoves.known (fun _ hc => hc) h.table, h.closest⟩
    rw [hconfig, ← h.k_eq]
    exact Moves.k_eq hmoves
  | startRepublish order hperm =>
    refine ⟨hsound, h.k_eq, h.unique, h.table, ?_⟩
    intro p hp c hc
    rcases List.mem_append.mp hp with hp | hp
    · exact h.closest p hp c hc
    · rw [List.mem_singleton.mp hp] at hc
      cases hc
  | startAnnounce content coin now now' =>
    refine ⟨hsound, h.k_eq, h.unique, h.table, ?_⟩
    intro p hp c hc
    rcases List.mem_append.mp hp with hp | hp
    · exact h.closest p hp c hc
    · rw [List.mem_singleton.mp hp] at hc
      cases hc
  | advance i now swarm =>
    simp only [Node.step] at hsound hconfig ⊢
    cases hget : s.running[i]? with
    | none =>
      rw [hget] at hsound
      exact ⟨hsound, h.k_eq, h.unique, h.table, h.closest⟩
    | some p =>
      rw [hget] at hsound hconfig
      have hp := List.mem_of_getElem? hget
      obtain ⟨hrouting, hclosest⟩ := window_closest s.svc s.time now swarm p
      have hmoves : DhtService.Moves (fun c => c.peerId ∈ N.ids) s.svc.routing
          (p.window s.svc s.time now swarm).1.routing := by
        rcases hrouting with heq | heq <;> rw [heq]
        · exact Reach.refl _
        · exact s.svc.moves_absorbContacts (h.closest p hp)
      refine ⟨hsound, ?_, hmoves.unique h.unique, hmoves.known (fun _ hc => hc) h.table, ?_⟩
      · rw [hconfig, ← h.k_eq]
        exact Moves.k_eq hmoves
      intro q hq c hc
      rcases List.mem_or_eq_of_mem_set hq with hq | rfl
      · exact h.closest q hq c hc
      · rcases hclosest c hc with hold | ⟨target, hfound⟩
        · exact h.closest p hp c hold
        · rcases DhtService.mem_closest_runLookup hfound with hseed | htold
          · exact h.table c (RoutingTable.mem_of_mem_closest hseed)
          · exact he c htold

/-! ## §2 Nodes that have met -/

/-- What a covering table answers shows the way. -/
theorem guides_closest {N : Lookup.Network} {t : RoutingTable} {localId : PeerId} {x : String}
    (ht : WellPlaced localId t.k t) (hunique : Unique t)
    (hmembers : ∀ c ∈ t.contacts, c.peerId ∈ N.ids) (hcovers : ∀ y ∈ N.ids, t.Covers y)
    (hx : x ∈ N.ids) (hself : Deps.fromHex x = some localId) (target : Key) :
    N.Guides target t.k x (t.closest target) := by
  have hdistance : ∀ {y p}, Deps.fromHex y = some p →
      distanceOf target y = target.distance (Key.fromPeerId p) := by
    intro y p hp
    simp [distanceOf, hp]
  refine ⟨fun c hc => hmembers c (RoutingTable.mem_of_mem_closest hc),
    RoutingTable.nodup_closest ht.key_isSome ((nodup_contacts_iff ht.placed).mpr hunique) target,
    t.length_closest_le target, ?_⟩
  intro y hy hother
  obtain ⟨p, hp⟩ := N.spells y hy
  have hne : p ≠ localId := by
    rintro rfl
    exact hother (N.eq_of_fromHex_eq hy hx (hp.trans hself.symm))
  refine (closest_progress ht hunique (hcovers y hy) hp hne target).imp_right ?_
  rintro ⟨hlen, hnearer⟩
  refine ⟨hlen, ?_⟩
  intro hlt c hc
  rw [hdistance hp, hdistance hself] at hlt
  obtain ⟨q, hq⟩ := N.spells c.peerId (hmembers c (RoutingTable.mem_of_mem_closest hc))
  rw [hdistance hq, hdistance hself]
  exact hnearer hlt c hc (Key.fromPeerId q) (by simp [Contact.key, Contact.peer, hq])

/-- A node never needs to know itself. -/
theorem covers_self [LawfulPeerIdHex] {t : RoutingTable} {localId : PeerId}
    (h : t.localKey = Key.fromPeerId localId) : t.Covers (Deps.toHex localId) := by
  intro i hi
  have hown : t.bucketFor (Key.fromPeerId localId) = none := by
    rw [RoutingTable.bucketFor, h, Distance.bucketIndex_eq_none_iff_toNat,
      Key.toNat_distance_eq_zero_iff]
  simp [RoutingTable.bucketOf, Contact.key, Contact.peer, LawfulPeerIdHex.fromHex_toHex, hown]
    at hi

/-- Whom a node adds, it covers. -/
theorem covers_addPeer {svc : DhtService} (h : svc.Valid) (hk : svc.routing.k = svc.config.k)
    {input : Input} (world : World) {p : PeerId} {addresses : List CandidateAddr}
    (hop : input.op = .addPeer p addresses) :
    (Service.step svc input world).1.routing.Covers (Deps.toHex p) := by
  have hcovers := covers_insert (t := svc.routing) (fun i => (h.routed.capacity_eq i).trans hk.symm)
    (Contact.new p addresses)
  simp only [Service.step, hop]
  split <;> rename_i heq <;> rwa [heq] at hcovers

/-- Whom a node serves, it covers. -/
theorem covers_caller [LawfulPeerIdHex] {svc : DhtService} (h : svc.Valid)
    (hk : svc.routing.k = svc.config.k) (hpos : 1 ≤ svc.config.k) (now : Nat) (c : Contact)
    (request : DhtRequest) :
    (svc.handleRequestFrom now (some c) request).1.routing.Covers c.peerId := by
  have hcovers := covers_insert (t := svc.routing) (fun i => (h.routed.capacity_eq i).trans hk.symm)
    c.capped
  -- After learning the caller, the table covers it.
  obtain ⟨svc', hlearn, hcovers'⟩ : ∃ svc', svc.learnCaller (some c) = some svc' ∧
      svc'.routing.Covers c.peerId := by
    simp only [DhtService.learnCaller]
    by_cases hself : c.peerId = svc.selfId
    · rw [if_pos hself, hself]
      exact ⟨svc, rfl, covers_self h.routed.localKey_eq⟩
    · rw [if_neg hself]
      have hpanic := insert_ne_panicked hpos h.routed c.capped
      cases hinsert : svc.routing.insert c.capped with
      | mk routing outcome =>
        rw [hinsert] at hpanic hcovers
        cases outcome with
        | panicked => exact absurd rfl hpanic
        | inserted => exact ⟨_, rfl, hcovers⟩
        | full lru => exact ⟨_, rfl, hcovers⟩
  simp only [DhtService.handleRequestFrom, hlearn]
  refine Grows.covers ?_ hcovers'
  rcases svc'.answer_fst now ((some c).map Contact.peerId) request with heq | ⟨record, -, -, heq⟩
  · simp only [heq]
    exact Reach.refl _
  · simp only [heq]
    exact svc'.grows_admitVerifiedRecord record now

/-- The AddProviders a publication sends go to all its lookup found. -/
theorem addProviders_publish {svc : DhtService} (swarm : Swarm) {target : Key}
    (record : ProviderRecord) (hne : svc.seedContacts target ≠ []) :
    addProviders (svc.publish swarm target record).2.2 =
      (svc.putTargets ((svc.runLookup swarm target (svc.seedContacts target) false).1.result
        svc.config.k).closest).map fun p => (p, record) := by
  simp only [DhtService.publish, DhtService.searchAndAbsorb, if_neg hne,
    Node.addProviders_append, Node.addProviders_lookupRequests, List.nil_append]
  rw [Node.addProviders_putRecordAt]
  rfl

/-- The contacts of an answer are in the table the node is left with. -/
theorem mem_contacts_serveAt {node : Node} {caller : Contact} {request : DhtRequest} {now : Nat}
    {response : DhtResponse} (h : (serveAt node caller request now).2 = some response) :
    ∀ c ∈ response.contacts,
      c ∈ (serveAt node caller request now).1.svc.routing.contacts := by
  intro c hc
  simp only [serveAt, DhtService.handleRequestFrom] at h ⊢
  cases hlearn : node.svc.learnCaller (some caller) with
  | none =>
    rw [hlearn] at h
    cases h
  | some svc =>
    rw [hlearn] at h
    cases request with
    | ping nonce =>
      cases h
      cases hc
    | findNode target =>
      simp only [DhtRequest.norm, DhtService.answer] at h ⊢
      cases hparse : parseKey target with
      | none =>
        rw [hparse] at h
        cases h
        cases hc
      | some key =>
        rw [hparse] at h
        cases h
        exact RoutingTable.mem_of_mem_closest hc
    | findProviders contentKey =>
      simp only [DhtRequest.norm, DhtService.answer] at h ⊢
      cases hparse : parseKey contentKey with
      | none =>
        rw [hparse] at h
        cases h
        cases hc
      | some key =>
        rw [hparse] at h
        cases h
        exact RoutingTable.mem_of_mem_closest hc
    | addProvider record =>
      simp only [DhtRequest.norm, DhtService.answer] at h
      split at h
      · cases h
        cases hc
      · split at h <;> cases h <;> cases hc

namespace SwarmRouter

/-- The members of a network, as the nodes of a router. -/
structure Community (N : Lookup.Network) (k : Nat) (net : SwarmRouter) : Prop where
  members : ∀ x, x ∈ N.ids ↔ ∃ node, net.nodes.lookup x = some node
  keyed : ∀ peerId node, net.nodes.lookup peerId = some node → peerId = node.svc.selfId
  config : ∀ peerId node, net.nodes.lookup peerId = some node →
    node.svc.config.k = k ∧ 1 ≤ node.svc.config.alpha
  peopled : ∀ peerId node, net.nodes.lookup peerId = some node → Peopled N node
  answered : ∀ e ∈ net.answered, ∀ c ∈ e.response.contacts, c.peerId ∈ N.ids

/-- The ids a client's operation brings a node. -/
def broughtBy : Op → List String
  | .bootstrap peers => peers.map fun p => Deps.toHex p.peerId
  | .addPeer p _ => [Deps.toHex p]
  | .ingestVerifiedProvider record => [record.providerPeerId]
  | _ => []

/-- A network by itself: who is added or calls and whose record is
ingested or added is a member. -/
def Closed (N : Lookup.Network) : SwarmEvent → Prop
  | .act _ (.call x) => servedBy x.1.op = none ∧ ∀ id ∈ broughtBy x.1.op, id ∈ N.ids
  | .act _ _ => True
  | .deliver caller _ request _ =>
    caller.peerId ∈ N.ids ∧ ∀ record ∈ request.record, record.providerPeerId ∈ N.ids

instance (N : Lookup.Network) : ∀ e, Decidable (Closed N e)
  | .act _ (.call _) => inferInstanceAs (Decidable (_ ∧ _))
  | .act _ (.startRepublish _ _) | .act _ (.startAnnounce _ _ _ _) | .act _ (.advance _ _ _) =>
    isTrue trivial
  | .deliver _ _ _ _ => inferInstanceAs (Decidable (_ ∧ _))

/-- No node removes a peer. -/
def KeepsPeers (e : SwarmEvent) : Prop :=
  e.event.removed = none

instance (e : SwarmEvent) : Decidable (KeepsPeers e) :=
  inferInstanceAs (Decidable (_ = none))

/-- The peer a client adds. -/
def addedBy : Op → Option String
  | .addPeer p _ => some (Deps.toHex p)
  | _ => none

/-- The event brings the node `peerId` the node `x`: `x` is added, or it
calls. -/
def Meets (peerId x : String) : SwarmEvent → Prop
  | .act id (.call y) => id = peerId ∧ x ∈ addedBy y.1.op
  | .act _ _ => False
  | .deliver caller id _ _ => id = peerId ∧ caller.peerId = x

instance (peerId x : String) : ∀ e, Decidable (Meets peerId x e)
  | .act _ (.call _) => inferInstanceAs (Decidable (_ ∧ _))
  | .act _ (.startRepublish _ _) | .act _ (.startAnnounce _ _ _ _) | .act _ (.advance _ _ _) =>
    isFalse not_false
  | .deliver _ _ _ _ => inferInstanceAs (Decidable (_ ∧ _))

section Communities

variable {N : Lookup.Network} {k : Nat} {net : SwarmRouter} {before after : List SwarmEvent}

theorem Community.spells [LawfulPeerIdHex] (h : net.Community N k) {x : String} (hx : x ∈ N.ids)
    {p : PeerId} (hp : Deps.fromHex x = some p) : Deps.toHex p = x := by
  obtain ⟨node, hnode⟩ := (h.members x).mp hx
  have hkeyed := h.keyed x node hnode
  rw [hkeyed, NodeProfile.selfId, LawfulPeerIdHex.fromHex_toHex] at hp
  cases hp
  exact hkeyed.symm

/-- What a lookup is told of are members. -/
theorem Community.named (h : net.Community N k) {swarm : Swarm} (hswarm : net.Relays swarm)
    {c : Contact} (hc : swarm.Names c) : c.peerId ∈ N.ids := by
  obtain ⟨asked, d, key, response, hresponse, hmem⟩ := hc
  obtain ⟨e, he, -, -, rfl⟩ := hswarm asked d key response hresponse
  have hcapped : ∃ c' ∈ e.response.contacts, c = c'.capped := by
    cases hres : e.response with
    | nodes cs =>
      rw [hres] at hmem
      obtain ⟨c', hc', rfl⟩ := List.mem_map.mp hmem
      exact ⟨c', hc', rfl⟩
    | providers records closer =>
      rw [hres] at hmem
      obtain ⟨c', hc', rfl⟩ := List.mem_map.mp hmem
      exact ⟨c', hc', rfl⟩
    | addProviderOk => rw [hres] at hmem; cases hmem
    | pong nonce => rw [hres] at hmem; cases hmem
    | error code message => rw [hres] at hmem; cases hmem
  obtain ⟨c', hc', rfl⟩ := hcapped
  exact h.answered e he c' hc'

/-- A closed event brings members only. -/
theorem Community.meets [LawfulPeerIdHex] (h : net.Community N k) {e : SwarmEvent}
    (hclosed : Closed N e) (hanswered : net.AnsweredByNodes e) {peerId : String} {e' : Event}
    (hevent : e = .act peerId e' ∨ ∃ caller request now,
      e = .deliver caller peerId request now ∧
      e' = .call (.at now (.handleRequestFrom (some caller) request.norm),
        tellingWorld .addProviderOk)) : MeetsMembers N e' := by
  have hrecord : ∀ {record : ProviderRecord} {p : PeerId} (addresses : List CandidateAddr),
      record.providerPeerId ∈ N.ids → record.provider = some p →
        (Contact.new p addresses).peerId ∈ N.ids := by
    intro record p addresses hmem hp
    show Deps.toHex p ∈ N.ids
    rwa [h.spells hmem hp]
  rcases hevent with rfl | ⟨caller, request, now, rfl, rfl⟩
  · cases e' with
    | call x =>
      intro c hc
      obtain ⟨hserved, hbrought⟩ := hclosed
      cases hc with
      | bootstrap peers p hop hp =>
        rw [hop] at hbrought
        exact hbrought _ (List.mem_map_of_mem hp)
      | addPeer p addresses hop =>
        rw [hop] at hbrought
        exact hbrought _ List.mem_cons_self
      | ingest record p addresses hop hp =>
        rw [hop] at hbrought
        exact hrecord addresses (hbrought _ List.mem_cons_self) hp
      | serve caller record p addresses hop hp =>
        rw [hop] at hserved
        cases hserved
      | caller c request hop =>
        rw [hop] at hserved
        cases hserved
      | told i c hc => exact h.named (hanswered i) hc
    | advance i now swarm => exact fun c hc => h.named hanswered hc
    | startRepublish order hperm => trivial
    | startAnnounce content coin now now' => trivial
  · obtain ⟨hcaller, hadded⟩ := hclosed
    intro c hc
    cases hc with
    | bootstrap peers p hop hp => cases hop
    | addPeer p addresses hop => cases hop
    | ingest record p addresses hop hp => cases hop
    | serve caller' record p addresses hop hp =>
      injection hop with hcaller' hreq
      cases request with
      | addProvider r =>
        cases hreq
        exact hrecord addresses (hadded r rfl) hp
      | findNode target => cases hreq
      | findProviders key => cases hreq
      | ping nonce => cases hreq
    | caller c request' hop =>
      cases hop
      exact hcaller
    | told i c hc => cases names_tellingWorld hc

theorem community_step [LawfulPeerIdHex] (h : net.Community N k) {e : SwarmEvent}
    (hclosed : Closed N e) (hanswered : net.AnsweredByNodes e) :
    (net.step e).Community N k := by
  rcases net.step_cases e with hsame | ⟨peerId, node, e', hnode, hnodes, -, hevent⟩
  · rwa [hsame]
  have hpeopled := h.peopled peerId node hnode
  have hprofile := Node.profile_step hpeopled.sound e'
  have hmeets : MeetsMembers N e' := h.meets hclosed hanswered <| by
    rcases hevent with ⟨heq, -⟩ | ⟨caller, request, now, heq, heq', -⟩
    · exact Or.inl heq
    · exact Or.inr ⟨caller, request, now, heq, heq'⟩
  have hmoved := peopled_step hpeopled hmeets
  refine ⟨?_, ?_, ?_, ?_, ?_⟩
  · intro x
    rw [h.members, hnodes]
    by_cases hx : x = peerId
    · subst hx
      simp [hnode]
    · rw [AList.lookup_insert_ne hx]
  · refine forall_moved hnodes h.keyed ?_
    rw [NodeProfile.selfId, hprofile]
    exact h.keyed peerId node hnode
  · refine forall_moved hnodes h.config ?_
    rw [hprofile]
    exact h.config peerId node hnode
  · exact forall_moved hnodes h.peopled hmoved
  · intro exchange hmem c hc
    rcases hevent with ⟨-, hlog⟩ | ⟨caller, request, now, -, rfl, hlog⟩
    · rw [hlog] at hmem
      exact h.answered exchange hmem c hc
    · rw [hlog] at hmem
      rcases List.mem_append.mp hmem with hold | hnew
      · exact h.answered exchange hold c hc
      · obtain ⟨res, hres, rfl⟩ := List.mem_map.mp hnew
        have hin := mem_contacts_serveAt (Option.mem_toList.mp hres) c hc
        rw [serveAt_eq] at hin
        exact hmoved.table c hin

theorem community_exec [LawfulPeerIdHex] (h : net.Community N k) {run : List SwarmEvent}
    (hrun : EachStep step (fun net e => Closed N e ∧ net.AnsweredByNodes e) net run) :
    (exec step net run).Community N k := by
  have hall : Always step (Community N k) net run :=
    always_of_eachStep (fun _ _ h he => community_step h he.1 he.2) h hrun
  exact hall.last

/-- Every node covers every member. -/
def Covering (N : Lookup.Network) (net : SwarmRouter) : Prop :=
  ∀ peerId node, net.nodes.lookup peerId = some node →
    ∀ x ∈ N.ids, node.svc.routing.Covers x

/-- The answer to a lookup toward a key shows the way there. -/
def Guided (N : Lookup.Network) (k : Nat) (e : Exchange) : Prop :=
  ∀ key : Key, e.request = .findProviders key.toHex →
    ∃ records closer, e.response = .providers records closer ∧ N.Guides key k e.callee closer

/-- Where nobody is removed, what is covered stays covered. -/
theorem covers_step {e : SwarmEvent} (hkeeps : KeepsPeers e) {peerId x : String} {node : Node}
    (hnode : net.nodes.lookup peerId = some node) (hcovers : node.svc.routing.Covers x) :
    ∃ node', (net.step e).nodes.lookup peerId = some node' ∧ node'.svc.routing.Covers x := by
  rcases net.step_cases e with hsame | ⟨id, s, e', htakes⟩
  · exact ⟨node, by rw [hsame, hnode], hcovers⟩
  by_cases hid : peerId = id
  · subst hid
    have hs := htakes.here
    rw [hnode] at hs
    cases hs
    refine ⟨node.step e', by rw [htakes.nodes, AList.lookup_insert], ?_⟩
    rcases node.grows_or_removes e' with hgrow | ⟨y, hremoved, -⟩
    · exact hgrow.covers hcovers
    · rw [← htakes.own.2] at hremoved
      exact absurd (hremoved.symm.trans hkeeps) (by simp)
  · exact ⟨node, by rw [htakes.nodes, AList.lookup_insert_ne hid, hnode], hcovers⟩

/-- Whom a node meets, it covers. -/
theorem covers_of_meets [LawfulPeerIdHex] (h : net.Community N k) (hk : 1 ≤ k) {e : SwarmEvent}
    {peerId x : String} (hmeets : Meets peerId x e) {node : Node}
    (hnode : net.nodes.lookup peerId = some node) :
    ∃ node', (net.step e).nodes.lookup peerId = some node' ∧ node'.svc.routing.Covers x := by
  have hpeopled := h.peopled peerId node hnode
  cases e with
  | act id e' =>
    cases e' with
    | call y =>
      obtain ⟨rfl, hadded⟩ := hmeets
      refine ⟨node.step (.call y), by simp [step, hnode], ?_⟩
      cases hop : y.1.op with
      | addPeer p addresses =>
        rw [hop] at hadded
        cases hadded
        exact covers_addPeer hpeopled.sound.valid hpeopled.k_eq y.2 hop
      | _ => simp [hop, addedBy] at hadded
    | startRepublish order hperm => exact hmeets.elim
    | startAnnounce content coin now now' => exact hmeets.elim
    | advance i now swarm => exact hmeets.elim
  | deliver caller id request now =>
    obtain ⟨rfl, rfl⟩ := hmeets
    refine ⟨(serveAt node caller request now).1, by simp [step, hnode], ?_⟩
    have hpos : 1 ≤ node.svc.config.k := by rwa [(h.config id node hnode).1]
    exact covers_caller hpeopled.sound.valid hpeopled.k_eq hpos now caller request.norm

/-- A network that has met covers itself. -/
theorem covering_of_met [LawfulPeerIdHex] (h : net.Community N k) (hk : 1 ≤ k)
    {run : List SwarmEvent}
    (hrun : EachStep step (fun net e => (Closed N e ∧ net.AnsweredByNodes e) ∧ KeepsPeers e)
      net run)
    (hmet : ∀ peerId ∈ N.ids, ∀ x ∈ N.ids, x ≠ peerId → ∃ e ∈ run, Meets peerId x e) :
    Covering N (exec step net run) := by
  -- For each pair: covered already, or the meeting is still to come.
  have hpair : ∀ (run : List SwarmEvent) (net : SwarmRouter), net.Community N k →
      EachStep step (fun net e => (Closed N e ∧ net.AnsweredByNodes e) ∧ KeepsPeers e) net run →
      ∀ peerId x node, net.nodes.lookup peerId = some node →
        (node.svc.routing.Covers x ∨ ∃ e ∈ run, Meets peerId x e) →
        ∃ node', (exec step net run).nodes.lookup peerId = some node' ∧
          node'.svc.routing.Covers x := by
    intro run
    induction run with
    | nil =>
      rintro net h - peerId x node hnode (hcovers | ⟨e, he, -⟩)
      · exact ⟨node, hnode, hcovers⟩
      · cases he
    | cons e run ih =>
      intro net h hrun peerId x node hnode hcase
      obtain ⟨⟨⟨hclosed, hanswered⟩, hkeeps⟩, hrest⟩ := hrun
      have hnext := community_step h hclosed hanswered
      have hcovered : (∃ node', (net.step e).nodes.lookup peerId = some node' ∧
          node'.svc.routing.Covers x) →
          ∃ node', (exec step net (e :: run)).nodes.lookup peerId = some node' ∧
            node'.svc.routing.Covers x := by
        rintro ⟨node', hnode', hcovers⟩
        exact ih _ hnext hrest peerId x node' hnode' (Or.inl hcovers)
      rcases hcase with hcovers | ⟨e', he', hmeets⟩
      · exact hcovered (covers_step hkeeps hnode hcovers)
      · rcases List.mem_cons.mp he' with rfl | he'
        · exact hcovered (covers_of_meets h hk hmeets hnode)
        · obtain ⟨node', hnode'⟩ := (hnext.members peerId).mp
            ((h.members peerId).mpr ⟨node, hnode⟩)
          exact ih _ hnext hrest peerId x node' hnode' (Or.inr ⟨e', he', hmeets⟩)
  intro peerId node hnode x hx
  have hlast := community_exec h (hrun.imp (I := fun net => net.Community N k)
    (fun _ _ h he => community_step h he.1.1 he.1.2) (fun _ _ _ he => he.1) h)
  have hid : peerId ∈ N.ids := (hlast.members peerId).mpr ⟨node, hnode⟩
  by_cases hself : x = peerId
  · rw [hself, hlast.keyed peerId node hnode]
    exact covers_self (hlast.peopled peerId node hnode).sound.valid.routed.localKey_eq
  · obtain ⟨start, hstart⟩ := (h.members peerId).mp hid
    obtain ⟨node', hnode', hcovers⟩ :=
      hpair run net h hrun peerId x start hstart (Or.inr (hmet peerId hid x hx hself))
    rw [hnode] at hnode'
    cases hnode'
    exact hcovers

/-! ## §3 Lookups in a network that has met -/

/-- The answer of a node that covers the network guides. -/
theorem Community.guides [LawfulPeerIdHex] (h : net.Community N k) {peerId : String} {node : Node}
    (hnode : net.nodes.lookup peerId = some node)
    (hcovers : ∀ x ∈ N.ids, node.svc.routing.Covers x) (key : Key) :
    N.Guides key k peerId (node.svc.routing.closest key) := by
  have hpeopled := h.peopled peerId node hnode
  have hsize : node.svc.routing.k = k := hpeopled.k_eq.trans (h.config peerId node hnode).1
  have hplaced : WellPlaced node.svc.localId node.svc.routing.k node.svc.routing := by
    rw [hpeopled.k_eq]
    exact hpeopled.sound.valid.routed
  have hself : Deps.fromHex peerId = some node.svc.localId := by
    rw [h.keyed peerId node hnode]
    exact LawfulPeerIdHex.fromHex_toHex _
  rw [← hsize]
  exact guides_closest hplaced hpeopled.unique hpeopled.table hcovers
    ((h.members peerId).mpr ⟨node, hnode⟩) hself key

/-- A network that has met, and the exchanges since. -/
structure Met (N : Lookup.Network) (k n : Nat) (net : SwarmRouter) : Prop where
  community : net.Community N k
  covering : Covering N net
  guided : ∀ e ∈ net.answered.drop n, Guided N k e

theorem met_step [LawfulPeerIdHex] {n : Nat} (h : net.Met N k n) {e : SwarmEvent}
    (he : (Closed N e ∧ net.AnsweredByNodes e) ∧ KeepsPeers e) : (net.step e).Met N k n := by
  have hnext := community_step h.community he.1.1 he.1.2
  have hcovering : Covering N (net.step e) := by
    intro peerId node hnode x hx
    obtain ⟨old, hold⟩ := (h.community.members peerId).mp
      ((hnext.members peerId).mpr ⟨node, hnode⟩)
    obtain ⟨node', hnode', hcovers⟩ := covers_step he.2 hold (h.covering peerId old hold x hx)
    rw [hnode] at hnode'
    cases hnode'
    exact hcovers
  refine ⟨hnext, hcovering, ?_⟩
  rcases net.step_cases e with hsame | ⟨peerId, node, e', hnode, hnodes, -, hevent⟩
  · rw [hsame]
    exact h.guided
  rcases hevent with ⟨-, hlog⟩ | ⟨caller, request, now, rfl, rfl, hlog⟩
  · rw [hlog]
    exact h.guided
  · intro exchange hmem
    have hmem' : exchange ∈ net.answered.drop n ∨ exchange ∈ (serveAt node caller request
        now).2.toList.map fun res => (⟨caller, peerId, request, res⟩ : Exchange) := by
      rw [hlog, List.drop_append] at hmem
      exact (List.mem_append.mp hmem).imp_right List.mem_of_mem_drop
    rcases hmem' with hold | hnew
    · exact h.guided exchange hold
    · obtain ⟨res, hres, rfl⟩ := List.mem_map.mp hnew
      intro key hrequest
      have hserved : res = .providers (node.svc.providers.get key.toHex now)
          ((serveAt node caller request now).1.svc.routing.closest key) := by
        cases hrequest
        exact answer_findProviders (Prod.ext rfl (Option.mem_toList.mp hres))
      have hafter : (net.step (.deliver caller peerId request now)).nodes.lookup peerId =
          some (serveAt node caller request now).1 := by
        simp [step, hnode]
      exact ⟨_, _, hserved, hnext.guides hafter (hcovering peerId _ hafter) key⟩

/-- A network that has met, after any run that removes nobody. -/
theorem met_of_run [LawfulPeerIdHex] (h : net.Community N k) (hk : 1 ≤ k)
    (hrun : EachStep step (fun net e => (Closed N e ∧ net.AnsweredByNodes e) ∧ KeepsPeers e) net
      (before ++ after))
    (hmet : ∀ peerId ∈ N.ids, ∀ x ∈ N.ids, x ≠ peerId → ∃ e ∈ before, Meets peerId x e) :
    (exec step net (before ++ after)).Met N k (exec step net before).answered.length := by
  obtain ⟨hbefore, hafter⟩ := eachStep_append.mp hrun
  have hcommunity : (exec step net before).Community N k :=
    community_exec h (hbefore.imp (I := fun net => net.Community N k)
      (fun _ _ h he => community_step h he.1.1 he.1.2) (fun _ _ _ he => he.1) h)
  have hstart : (exec step net before).Met N k (exec step net before).answered.length :=
    ⟨hcommunity, covering_of_met h hk hbefore hmet, by simp⟩
  have hall : Always step (Met N k (exec step net before).answered.length)
      (exec step net before) after :=
    always_of_eachStep (fun _ _ h he => met_step h he) hstart hafter
  rw [exec_append]
  exact hall.last

/-- Every answer the walk got, one of the exchanges gave. -/
def Heard (log : List Exchange) (target : Key) (w : Walk) : Prop :=
  ∀ a ∈ w.trace, ∃ e ∈ log, e.callee = a.1.peerId ∧ e.request = .findProviders target.toHex ∧
    a.2 = queryOutcome target.toHex (some e.response.norm)

instance (log : List Exchange) (target : Key) (w : Walk) : Decidable (Heard log target w) :=
  inferInstanceAs (Decidable (∀ a ∈ w.trace, ∃ e ∈ log, _))

theorem guides_capped {target : Key} {x : String} {cs : List Contact}
    (h : N.Guides target k x cs) : N.Guides target k x (cs.map Contact.capped) := by
  have hids : (cs.map Contact.capped).map Contact.peerId = cs.map Contact.peerId := by
    rw [List.map_map]
    rfl
  refine ⟨?_, hids ▸ h.nodup, by simpa using h.length, ?_⟩
  · exact List.forall_mem_map.mpr fun c hc => h.members c hc
  · intro y hy hother
    rw [hids, List.length_map]
    refine (h.way y hy hother).imp_right ?_
    rintro ⟨hlen, hnearer⟩
    exact ⟨hlen, fun hlt => List.forall_mem_map.mpr fun c hc => hnearer hlt c hc⟩

/-- What a lookup hears in a network that has met routes it. -/
theorem Met.routes {n : Nat} (h : net.Met N k n) {target : Key} {w : Walk}
    (hheard : Heard (net.answered.drop n) target w) (svc : DhtService) (hk : svc.config.k = k)
    (stop : Bool) : ∀ a ∈ w.trace, (svc.lookupParams target stop).Routes N a := by
  intro a ha
  obtain ⟨e, he, hcallee, hrequest, hanswer⟩ := hheard a ha
  obtain ⟨records, closer, hresponse, hguides⟩ := h.guided e he target hrequest
  rw [hresponse] at hanswer
  refine ⟨_, hanswer, ?_⟩
  show N.Guides target svc.config.k a.1.peerId (closer.map Contact.capped)
  rw [hk, ← hcallee]
  exact guides_capped hguides

/-- In a network that has met, everybody knows somebody. -/
theorem Met.seeds_ne_nil [LawfulPeerIdHex] {n : Nat} (h : net.Met N k n) (hk : 1 ≤ k)
    (htwo : 2 ≤ N.ids.length) {peerId : String} {node : Node}
    (hnode : net.nodes.lookup peerId = some node) (target : Key) :
    node.svc.seedContacts target ≠ [] := by
  have hpeopled := h.community.peopled peerId node hnode
  have hkeyed := h.community.keyed peerId node hnode
  have hsize : node.svc.routing.k = k :=
    hpeopled.k_eq.trans (h.community.config peerId node hnode).1
  -- Somebody else, and the bucket it belongs in.
  obtain ⟨x, hx, hother⟩ : ∃ x ∈ N.ids, x ≠ peerId := by
    by_contra hnone
    have hall : ∀ x ∈ N.ids, x = peerId := by
      intro x hx
      by_contra hne
      exact hnone ⟨x, hx, hne⟩
    have hle : N.ids.length ≤ 1 := by
      have hnodup : N.ids.Nodup := N.distinct.of_map
      have hsub : N.ids ⊆ [peerId] := fun x hx => List.mem_singleton.mpr (hall x hx)
      exact (hnodup.subperm hsub).length_le
    omega
  obtain ⟨p, hp⟩ := N.spells x hx
  have hne : p ≠ node.svc.localId := by
    rintro rfl
    rw [hkeyed, NodeProfile.selfId] at hother
    exact hother (h.community.spells hx hp).symm
  obtain ⟨i, hi⟩ : ∃ i, node.svc.routing.bucketOf ⟨x, []⟩ = some i := by
    refine Option.isSome_iff_exists.mp (Option.isSome_iff_ne_none.mpr ?_)
    intro hnone
    simp only [RoutingTable.bucketOf, Contact.key, Contact.peer, hp, Option.map_some,
      Option.bind_some, RoutingTable.bucketFor, Distance.bucketIndex_eq_none_iff_toNat,
      Key.toNat_distance_eq_zero_iff, hpeopled.sound.valid.routed.localKey_eq] at hnone
    exact hne (Key.fromPeerId_injective hnone.symm)
  have hbucket : (node.svc.routing.bucket i).contacts ≠ [] := by
    rcases h.covering peerId node hnode x hx i hi with hheld | hfull
    · obtain ⟨c, hc, -⟩ := KBucket.holds_iff.mp hheld
      exact List.ne_nil_of_mem hc
    · intro hnil
      rw [hnil, hsize, List.length_nil] at hfull
      omega
  obtain ⟨c, hc⟩ := List.exists_mem_of_ne_nil _ hbucket
  have hlen := List.length_pos_of_mem (RoutingTable.mem_contacts.mpr ⟨i, hc⟩)
  obtain ⟨rest, -, -, hclosest⟩ :=
    RoutingTable.closest_split hpeopled.sound.valid.routed.key_isSome target
  intro hnil
  have hzero : (node.svc.routing.closest target).length = 0 := by
    rw [List.length_eq_zero_iff]
    exact hnil
  rw [hclosest, hsize, RoutingTable.len_eq] at hzero
  omega

/-- **A lookup in a network that has met**, unless the guard cuts it or it
stops on providers, has asked the nearest nodes. -/
theorem Met.lookup [LawfulPeerIdHex] {n : Nat} (h : net.Met N k n) (hk : 1 ≤ k)
    (htwo : 2 ≤ N.ids.length) {peerId : String} {node : Node}
    (hnode : net.nodes.lookup peerId = some node) {swarm : Swarm} {target : Key} {stop : Bool}
    (hheard : Heard (net.answered.drop n) target
      (node.svc.runLookup swarm target (node.svc.seedContacts target) stop).1)
    (huncut : N.Uncut (node.svc.runLookup swarm target (node.svc.seedContacts target) stop).2) :
    let walk := node.svc.runLookup swarm target (node.svc.seedContacts target) stop
    stop = true ∧ walk.2 = .stoppedOnProviders ∨
      (∀ x ∈ N.nearest target k, x ∈ askedIds walk.1) ∧
      (walk.1.result node.svc.config.k).closest.map Contact.peerId = N.nearest target k := by
  intro walk
  obtain ⟨hconfig, halpha⟩ := h.community.config peerId node hnode
  have hseeds : ∀ c ∈ node.svc.seedContacts target, c.peerId ∈ N.ids := fun c hc =>
    (h.community.peopled peerId node hnode).table c (RoutingTable.mem_of_mem_closest hc)
  have hroutes := h.routes hheard node.svc hconfig stop
  have hne := h.seeds_ne_nil hk htwo hnode target
  have hpos : 1 ≤ (node.svc.lookupParams target stop).k := by
    show 1 ≤ node.svc.config.k
    omega
  have hdone : walk.2 = .exhausted ∨ walk.2 = .converged →
      (∀ x ∈ N.nearest target k, x ∈ askedIds walk.1) ∧
      (walk.1.result node.svc.config.k).closest.map Contact.peerId = N.nearest target k := by
    intro hexit
    rw [← hconfig]
    exact ⟨(LookupParams.nearest_asked hpos halpha hne hseeds hroutes hexit).2,
      LookupParams.routed_exact hpos halpha hne hseeds hroutes hexit⟩
  have hspec := ((node.svc.lookupParams target stop).walk_spec (swarm.peers target.toHex)
    (node.svc.seedContacts target)).2
  have hguard := LookupParams.ne_guard_of_uncut hseeds hroutes huncut
  cases hexit : walk.2 with
  | guard => exact absurd hexit hguard
  | exhausted => exact Or.inr (hdone (Or.inl hexit))
  | converged => exact Or.inr (hdone (Or.inr hexit))
  | stoppedOnProviders =>
    have hstopped : (node.svc.lookupParams target stop).ExitSpec walk.1 .stoppedOnProviders :=
      hexit ▸ hspec
    exact Or.inl ⟨hstopped.1, rfl⟩

theorem community_fresh (hfresh : net.Fresh)
    (hmembers : ∀ x, x ∈ N.ids ↔ ∃ node, net.nodes.lookup x = some node)
    (hconfig : ∀ peerId node, net.nodes.lookup peerId = some node →
      node.svc.config.k = k ∧ 1 ≤ node.svc.config.alpha) : net.Community N k where
  members := hmembers
  keyed := (provenance_fresh hfresh).keyed
  config := hconfig
  peopled peerId node hnode := by
    obtain ⟨localId, addresses, config, -, rfl⟩ := hfresh.nodes peerId node hnode
    exact peopled_start N localId addresses config
  answered := by simp [hfresh.answered]

/-- A run of a network by itself: it starts out fresh, deals with itself
only and removes nobody, and by the end of `before` every node has met
every other. -/
structure Gathers (N : Lookup.Network) (k : Nat) (net : SwarmRouter)
    (before after : List SwarmEvent) : Prop where
  fresh : net.Fresh
  members : ∀ x, x ∈ N.ids ↔ ∃ node, net.nodes.lookup x = some node
  config : ∀ peerId node, net.nodes.lookup peerId = some node →
    node.svc.config.k = k ∧ 1 ≤ node.svc.config.alpha
  positive : 1 ≤ k
  two : 2 ≤ N.ids.length
  run : EachStep step (fun net e => (Closed N e ∧ net.AnsweredByNodes e) ∧ KeepsPeers e) net
    (before ++ after)
  met : ∀ peerId ∈ N.ids, ∀ x ∈ N.ids, x ≠ peerId → ∃ e ∈ before, Meets peerId x e

theorem Gathers.community (h : net.Gathers N k before after) : net.Community N k :=
  community_fresh h.fresh h.members h.config

theorem Gathers.now [LawfulPeerIdHex] (h : net.Gathers N k before after) :
    (exec step net (before ++ after)).Met N k (exec step net before).answered.length :=
  met_of_run h.community h.positive h.run h.met

/-- **`find_node` finds the nearest nodes.** In a network by itself, once
every node has met every other, and whatever else has happened:
`find_node` run by any node whose queries were answered since returns
exactly the `k` nodes nearest to its target, nearest first. -/
theorem find_node_exact [LawfulPeerIdHex] (h : net.Gathers N k before after) :
    let now := exec step net (before ++ after)
    let since := now.answered.drop (exec step net before).answered.length
    ∀ peerId node swarm target, now.nodes.lookup peerId = some node →
      Heard since (Key.fromPeerId target) (node.svc.runLookup swarm (Key.fromPeerId target)
        (node.svc.seedContacts (Key.fromPeerId target)) false).1 →
      N.Uncut (node.svc.runLookup swarm (Key.fromPeerId target)
        (node.svc.seedContacts (Key.fromPeerId target)) false).2 →
      ∃ found, (node.svc.findNode swarm target).2.1 = some found ∧
        found.map Contact.peerId = N.nearest (Key.fromPeerId target) k := by
  intro now since peerId node swarm target hnode hheard huncut
  have hnow : now.Met N k (exec step net before).answered.length := h.now
  rcases hnow.lookup h.positive h.two hnode hheard huncut with ⟨hstop, -⟩ | ⟨-, hclosest⟩
  · cases hstop
  · refine ⟨_, ?_, hclosest⟩
    have hne := hnow.seeds_ne_nil h.positive h.two hnode (Key.fromPeerId target)
    simp only [DhtService.findNode, DhtService.searchAndAbsorb, if_neg hne]
    rfl

/-- **An announce goes to the nearest nodes.** In such a network an
announce by any node, whose queries were answered since and whose lookup
the guard does not cut, sends its record to exactly the `k` nodes nearest
to the key of its content, the node itself left out. -/
theorem announce_targets [LawfulPeerIdHex] (h : net.Gathers N k before after) :
    let now := exec step net (before ++ after)
    let since := now.answered.drop (exec step net before).answered.length
    ∀ peerId node swarm clock content coin, now.nodes.lookup peerId = some node →
      Heard since content.toKey (node.svc.runLookup swarm content.toKey
        (node.svc.seedContacts content.toKey) false).1 →
      N.Uncut (node.svc.runLookup swarm content.toKey
        (node.svc.seedContacts content.toKey) false).2 →
      (addProviders (node.svc.announceProviderWithCollateral clock swarm content coin).2.2).map
          (fun m => (m.1.peerId, m.2)) =
        ((N.nearest content.toKey k).filter (· ≠ peerId)).map
          fun x => (x, node.svc.announcedRecord content coin (clock 0)) := by
  intro now since peerId node swarm clock content coin hnode hheard huncut
  have hnow : now.Met N k (exec step net before).answered.length := h.now
  rcases hnow.lookup h.positive h.two hnode hheard huncut with ⟨hstop, -⟩ | ⟨-, hclosest⟩
  · cases hstop
  · have hne := hnow.seeds_ne_nil h.positive h.two hnode content.toKey
    have hself := hnow.community.keyed peerId node hnode
    -- The store window of the announce leaves table and configuration alone.
    have hsent : addProviders
        (node.svc.announceProviderWithCollateral clock swarm content coin).2.2 =
        (node.svc.putTargets ((node.svc.runLookup swarm content.toKey
          (node.svc.seedContacts content.toKey) false).1.result node.svc.config.k).closest).map
          fun p => (p, node.svc.announcedRecord content coin (clock 0)) := by
      let stored := node.svc.storeAnnounced content.toKey.toHex
        (node.svc.announcedRecord content coin (clock 0)) (clock 1)
      have hseeds : stored.seedContacts content.toKey ≠ [] := hne
      exact addProviders_publish swarm _ hseeds
    rw [hsent, ← hclosest, List.filter_map, List.map_map, List.map_map, hself]
    rfl

end Communities

end SwarmRouter

end Routing

/-! ### The three nodes meet -/

section Samples

attribute [local instance] sampleDeps

/-- Peers 9, 211 and 1. -/
def sampleMembers : Lookup.Network where
  ids := ([9, 211, 1] : List UInt8).map sampleId
  spells := by
    have hsome : ∀ x ∈ ([9, 211, 1] : List UInt8).map sampleId,
        (Deps.fromHex x).isSome = true := by decide +kernel
    intro x hx
    exact Option.isSome_iff_exists.mp (hsome x hx)
  distinct := by decide +kernel

/-- Peer 1 asks about the content, and on its way to peer 210. -/
def asking : List SwarmEvent :=
  [asks 1 sampleContent.toKey 200, asks 1 (Key.fromPeerId (samplePeer 210)) 201]

/-- The sample router when all is said. -/
def askedRouter : SwarmRouter :=
  exec SwarmRouter.step sampleRouter (meetings ++ announcing ++ asking)

/-- What was answered since the nodes met. -/
def sinceMet : List Exchange :=
  askedRouter.answered.drop
    (exec SwarmRouter.step sampleRouter (meetings ++ announcing)).answered.length

namespace SwarmRouter

theorem gathers_three :
    sampleRouter.Gathers sampleMembers 1 (meetings ++ announcing) asking where
  fresh := fresh_sampleRouter
  members x := by
    have hkeys : sampleMembers.ids.Perm sampleRouter.nodes.keys := by decide +kernel
    rw [hkeys.mem_iff, FMap.mem_keys_iff]
  config := by
    intro peerId node hnode
    have hall : ∀ s ∈ sampleRouter.nodes.entries,
        s.2.svc.config.k = 1 ∧ 1 ≤ s.2.svc.config.alpha := by decide +kernel
    exact hall ⟨peerId, node⟩ (FMap.mk_mem_entries.mpr hnode)
  positive := le_rfl
  two := by decide
  run := by
    have hclosed : ∀ e ∈ meetings ++ announcing ++ asking,
        Closed sampleMembers e ∧ KeepsPeers e := by decide +kernel
    have hanswered : EachStep step AnsweredByNodes sampleRouter
        (meetings ++ announcing ++ asking) :=
      eachStep_append.mpr ⟨answered_announcing, trivial, trivial, trivial⟩
    have heach : EachStep step (fun _ e => Closed sampleMembers e ∧ KeepsPeers e) sampleRouter
        (meetings ++ announcing ++ asking) :=
      eachStep_of_invariant (I := fun _ => True) (fun _ _ _ _ => trivial)
        (fun _ e he _ => hclosed e he) trivial
    exact (hanswered.and heach).imp (I := fun _ => True) (fun _ _ _ _ => trivial)
      (fun _ _ _ he => ⟨⟨he.2.1, he.1⟩, he.2.2⟩) trivial
  met := by decide +kernel

/-- Every query of peer 1 was answered since. -/
theorem heard_three :
    ∃ node ∈ askedRouter.nodes.lookup (sampleId 1),
      (∀ target ∈ [sampleContent.toKey, Key.fromPeerId (samplePeer 210)],
        Heard sinceMet target (node.svc.runLookup askedRouter.relay target
          (node.svc.seedContacts target) false).1) ∧
      Heard sinceMet sampleContent.toKey
        (node.svc.providerWalk askedRouter.relay sampleContent).1 ∧
      node.svc.announcedRecord sampleContent none 300 = sampleRecord 1 7500 := by
  decide +kernel

/-- On the way to peer 210, peer 1 finds peer 211. -/
theorem find_node_exact_three :
    ∃ node found, askedRouter.nodes.lookup (sampleId 1) = some node ∧
      (node.svc.findNode askedRouter.relay (samplePeer 210)).2.1 = some found ∧
        found.map Contact.peerId = [sampleId 211] := by
  obtain ⟨node, hnode, hheard, -⟩ := heard_three
  obtain ⟨found, hfound, hids⟩ := find_node_exact gathers_three (sampleId 1) node
    askedRouter.relay (samplePeer 210) hnode (hheard _ (by simp)) (Or.inr (by decide))
  exact ⟨node, found, hnode, hfound, hids.trans (by decide +kernel)⟩

/-- If peer 1 announces the content too, its record goes to peer 211. -/
theorem announce_targets_three :
    ∃ node, askedRouter.nodes.lookup (sampleId 1) = some node ∧
      (addProviders (node.svc.announceProviderWithCollateral (fun _ => 300) askedRouter.relay
        sampleContent none).2.2).map (fun m => (m.1.peerId, m.2)) =
          [(sampleId 211, sampleRecord 1 7500)] := by
  obtain ⟨node, hnode, hheard, -, hrecord⟩ := heard_three
  have hsent := announce_targets gathers_three (sampleId 1) node askedRouter.relay (fun _ => 300)
    sampleContent none hnode (hheard _ (by simp)) (Or.inr (by decide))
  have hnearest : (sampleMembers.nearest sampleContent.toKey 1).filter (· ≠ sampleId 1) =
      [sampleId 211] := by decide +kernel
  rw [hnearest, hrecord] at hsent
  exact ⟨node, hnode, hsent⟩

end SwarmRouter

end Samples

end DigDht.Network
