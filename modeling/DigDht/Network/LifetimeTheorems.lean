/-
DigDht.Network.LifetimeTheorems — what is no longer announced is
forgotten.

A withdraw tells nobody. The copies of a record on other nodes, the
messages under way and the caches run out by themselves, and this module
says when. A record LAPSES at `t` if it expires by then. §1 is one node:
every record it puts or sends it has built itself, or was given
(`mem_built_or_given`). §2 is the network: if from some point on all that
a node builds for a content lapses at `t` (`Ebbs`), then every record of
that node for the content does, wherever it is, whoever passed it on and
however often (`lapsing_step`). §3: from `t` on no answer, no cache and no
lookup in the network names the node for that content
(`withdrawn_forgotten`).
-/
import DigDht.Network.ProvenanceTheorems

namespace DigDht.Network

open Keyspace Record Routing Lookup Store Wire Content Service Runs

/-- If the record names `x` for the key, it expires at `t` or before. -/
def Lapses (x contentKey : String) (t : Nat) (r : ProviderRecord) : Prop :=
  r.providerPeerId = x → r.contentKey = contentKey → r.expiresAt ≤ t

instance (x contentKey : String) (t : Nat) (r : ProviderRecord) :
    Decidable (Lapses x contentKey t r) :=
  inferInstanceAs (Decidable (_ → _ → _))

/-- The record a store operation puts. -/
def putOf : StoreOp → Option ProviderRecord
  | .putAt r _ => some r
  | _ => none

/-- The record an event of the network hands a node for ingestion. -/
def SwarmEvent.ingested : SwarmEvent → Option ProviderRecord
  | .act _ (.call x) => ingestedBy x.1.op
  | _ => none

section Lifetime

variable [Deps] {x contentKey : String} {t : Nat}

theorem Lapses.normalized {r : ProviderRecord} (h : Lapses x contentKey t r) :
    Lapses x contentKey t r.normalized :=
  h

theorem Lapses.shortened {r : ProviderRecord} (h : Lapses x contentKey t r) {expiresAt : Nat}
    (hle : expiresAt ≤ r.expiresAt) :
    Lapses x contentKey t { r.normalized with expiresAt } :=
  fun hx hkey => hle.trans (h hx hkey)

theorem Lapses.clamped {r : ProviderRecord} (h : Lapses x contentKey t r) (node : NodeProfile)
    (now : Nat) : Lapses x contentKey t (node.clampedRecord r now) :=
  h.shortened (min_le_left _ _)

omit [Deps] in
/-- By `t` a record that lapses then is dead. -/
theorem Lapses.names_another {r : ProviderRecord} (h : Lapses x contentKey t r)
    (hkey : r.contentKey = contentKey) {now : Nat} (hnow : t ≤ now)
    (hlive : r.isExpired now = false) : r.providerPeerId ≠ x := by
  intro hx
  have hlast := h hx hkey
  rw [ProviderRecord.isExpired, decide_eq_false_iff_not] at hlive
  omega

/-! ## §1 One node -/

/-- The records an event has a node build of itself. -/
def builtBy (s : Node) : Event → List ProviderRecord
  | .call y =>
    match y.1.op with
    | .announceProviderWithCollateral _ _ | .republish =>
      (s.svc.assertionSide.storeOps y.1).filterMap putOf
    | _ => []
  | .startRepublish _ _ => []
  | .startAnnounce content coin now _ => [s.svc.announcedRecord content coin now]
  | .advance i now swarm =>
    (s.running[i]?.bind fun p => (p.window s.svc s.time now swarm).2.1.stage.unstored).toList

/-- The node has the record in hand. -/
def InHand (s : Node) (r : ProviderRecord) : Prop :=
  ∃ p ∈ s.running, ∃ b, p.stage.held = some (r, b)

/-- What is put was built there and then, or was in hand, or was given. -/
theorem mem_built_or_given {s : Node} {e : Event} {r : ProviderRecord} {now : Nat}
    (hr : StoreOp.putAt r now ∈ s.storeOps e) :
    r ∈ builtBy s e ∨ InHand s r ∨
      ∃ record, r = s.svc.clampedRecord record now ∧ Given record e := by
  cases e with
  | call y =>
    have hbuilt : r ∈ (s.svc.assertionSide.storeOps y.1).filterMap putOf :=
      List.mem_filterMap.mpr ⟨_, hr, rfl⟩
    cases DhtService.mem_storeOps_putAt hr with
    | announce content coin hop => exact Or.inl (by simpa only [builtBy, hop] using hbuilt)
    | republish hex target i hop hlisted hparse =>
      exact Or.inl (by simpa only [builtBy, hop] using hbuilt)
    | ingest record hop => exact Or.inr (Or.inr ⟨record, rfl, Or.inl hop⟩)
    | serve caller record hop hown =>
      exact Or.inr (Or.inr ⟨record, rfl, Or.inr ⟨caller, hop, hown⟩⟩)
  | startRepublish order hperm => cases hr
  | startAnnounce content coin now₀ now' =>
    rcases List.mem_pair.mp hr with heq | heq <;> cases heq
    exact Or.inl List.mem_cons_self
  | advance i now' swarm =>
    obtain ⟨q, hq, heq⟩ := List.mem_map.mp hr
    cases heq
    obtain ⟨p, hget, hunstored⟩ := Option.bind_eq_some_iff.mp (Option.mem_toList.mp hq)
    exact Or.inr (Or.inl ⟨p, List.mem_of_getElem? hget, Stage.held_of_unstored hunstored⟩)

/-- What an operation sends it has built. -/
theorem built_of_sent {s : Node} {y : Input × World} {c : Contact} {r : ProviderRecord}
    (hsent : (c, DhtRequest.addProvider r) ∈ (Service.step s.svc y.1 y.2).2.sent) :
    r ∈ builtBy s (.call y) := by
  obtain ⟨-, -, now, hput⟩ := DhtService.sent_step s.svc y.1 y.2 hsent
  have hbuilt : r ∈ (s.svc.assertionSide.storeOps y.1).filterMap putOf :=
    List.mem_filterMap.mpr ⟨_, hput, rfl⟩
  cases DhtService.mem_storeOps_putAt hput with
  | announce content coin hop => simpa only [builtBy, hop] using hbuilt
  | republish hex target i hop hlisted hparse => simpa only [builtBy, hop] using hbuilt
  | ingest record hop =>
    simp only [Service.step, hop] at hsent
    cases hsent
  | serve caller record hop hown =>
    simp only [Service.step, hop] at hsent
    cases hsent

/-- What a node has in hand after an event it had before, or it has built
it. -/
theorem inHand_step {s : Node} {e : Event} {r : ProviderRecord} (h : InHand (s.step e) r) :
    InHand s r ∨ r ∈ builtBy s e := by
  obtain ⟨q, hq, b, hheld⟩ := h
  cases e with
  | call y => exact Or.inl ⟨q, hq, b, hheld⟩
  | startRepublish order hperm =>
    rcases List.mem_append.mp hq with hq | hq
    · exact Or.inl ⟨q, hq, b, hheld⟩
    · rw [List.mem_singleton.mp hq] at hheld
      cases hheld
  | startAnnounce content coin now now' =>
    rcases List.mem_append.mp hq with hq | hq
    · exact Or.inl ⟨q, hq, b, hheld⟩
    · rw [List.mem_singleton.mp hq] at hheld
      cases hheld
      exact Or.inr List.mem_cons_self
  | advance i now swarm =>
    simp only [Node.step] at hq
    cases hget : s.running[i]? with
    | none =>
      rw [hget] at hq
      exact Or.inl ⟨q, hq, b, hheld⟩
    | some p =>
      rw [hget] at hq
      rcases List.mem_or_eq_of_mem_set hq with hq | rfl
      · exact Or.inl ⟨q, hq, b, hheld⟩
      · rcases p.window_held s.svc s.time now swarm with ⟨-, -, hold⟩ |
          ⟨hex, -, hidle | ⟨target, r', -, -, hbuilt⟩⟩
        · exact Or.inl ⟨p, List.mem_of_getElem? hget, b, hold _ hheld⟩
        · rw [hidle] at hheld
          cases hheld
        · rw [hbuilt] at hheld
          cases hheld
          right
          simp [builtBy, hget, hbuilt, Stage.unstored]

/-- What a node has sent after an event it had sent before, or had in
hand, or it has built it. -/
theorem posted_step {s : Node} {e : Event} {m : Posted} (h : m ∈ (s.step e).posted) :
    m ∈ s.posted ∨ InHand s m.record ∨ m.record ∈ builtBy s e := by
  cases e with
  | call y =>
    rcases List.mem_append.mp h with hold | hnew
    · exact Or.inl hold
    · exact Or.inr (Or.inr (built_of_sent (Node.mem_stamped hnew).2))
  | startRepublish order hperm => exact Or.inl h
  | startAnnounce content coin now now' => exact Or.inl h
  | advance i now swarm =>
    simp only [Node.step] at h
    cases hget : s.running[i]? with
    | none =>
      rw [hget] at h
      exact Or.inl h
    | some p =>
      rw [hget] at h
      rcases List.mem_append.mp h with hold | hnew
      · exact Or.inl hold
      · exact Or.inr (Or.inl ⟨p, List.mem_of_getElem? hget, m.builtAt,
          p.window_posted s.svc s.time now swarm hnew⟩)

/-! ## §2 The network -/

namespace SwarmRouter

/-- All the event has its node build, or ingest, lapses at `t`. -/
@[mk_iff] structure Ebbs (x contentKey : String) (t : Nat) (net : SwarmRouter) (e : SwarmEvent) :
    Prop where
  built : ∀ node ∈ net.nodes.lookup e.peerId, ∀ r ∈ builtBy node e.event, Lapses x contentKey t r
  ingested : ∀ r ∈ e.ingested, Lapses x contentKey t r

instance (x contentKey : String) (t : Nat) (net : SwarmRouter) (e : SwarmEvent) :
    Decidable (Ebbs x contentKey t net e) :=
  decidable_of_iff _ (ebbs_iff x contentKey t net e).symm

/-- All the network has of `x` for the key lapses at `t`. -/
structure Lapsing (x contentKey : String) (t : Nat) (net : SwarmRouter) : Prop where
  here : ∃ node, net.nodes.lookup x = some node
  stored : ∀ peerId node, net.nodes.lookup peerId = some node →
    ∀ k y e, node.svc.providers.entry k y = some e → Lapses x contentKey t e.record
  cached : ∀ peerId node, net.nodes.lookup peerId = some node →
    ∀ k y e, node.svc.discovered.entry k y = some e → Lapses x contentKey t e.record
  inHand : ∀ peerId node, net.nodes.lookup peerId = some node →
    ∀ r, InHand node r → Lapses x contentKey t r
  posted : ∀ peerId node, net.nodes.lookup peerId = some node →
    ∀ m ∈ node.posted, Lapses x contentKey t m.record
  answered : ∀ e ∈ net.answered, ∀ r ∈ e.response.records, Lapses x contentKey t r

variable {net : SwarmRouter}

theorem lapsing_fresh (h : net.Fresh) (hx : ∃ node, net.nodes.lookup x = some node) :
    net.Lapsing x contentKey t := by
  refine ⟨hx, ?_, ?_, ?_, ?_, by simp [h.answered]⟩ <;> intro peerId node hnode <;>
    obtain ⟨localId, addresses, config, -, rfl⟩ := h.nodes peerId node hnode
  · simp [Node.start, DhtService.new, ProviderStore.withLimits, ProviderStore.entry]
  · simp [Node.start, DhtService.new, ProviderStore.withLimits, ProviderStore.entry]
  · simp [Node.start, InHand]
  · simp [Node.start]

/-- What a node is given lapses: it was ingested, or `x` has sent it. -/
theorem Lapsing.given [LawfulPeerIdHex] (h : net.Lapsing x contentKey t) (hp : net.Provenance)
    {e : SwarmEvent} (ha : net.Authentic e) (he : net.Ebbs x contentKey t e) {peerId : String}
    {node : Node} {e' : Event} (htakes : net.Takes e peerId node e') {record : ProviderRecord}
    (hgiven : Given record e') : Lapses x contentKey t record := by
  rcases htakes.answered with ⟨rfl, -⟩ | ⟨caller, request, now, rfl, rfl, -⟩
  · cases e' with
    | call y =>
      rcases hgiven with hop | ⟨caller, hop, -⟩
      · refine he.ingested record ?_
        simp [SwarmEvent.ingested, ingestedBy, hop]
      · have hserved := ha.1
        rw [hop] at hserved
        cases hserved
    | startRepublish order hperm => exact hgiven.elim
    | startAnnounce content coin now now' => exact hgiven.elim
    | advance i now swarm => exact hgiven.elim
  · rcases hgiven with hop | ⟨caller', hop, hown⟩
    · cases hop
    · injection hop with hcaller hrecord
      subst hcaller
      cases request with
      | addProvider r =>
        cases hrecord
        intro hx
        -- The caller is `x`, so it has sent the record.
        have hcaller : caller.peerId = x := by
          by_contra hother
          have hnames : caller.peerId ≠ r.providerPeerId := fun heq => hother (heq.trans hx)
          simp [DhtService.namesAnother, hnames] at hown
        obtain ⟨maker, hmaker⟩ := h.here
        have hpeer : caller.peer = some maker.svc.localId := by
          rw [Contact.peer, hcaller, hp.keyed x maker hmaker]
          exact LawfulPeerIdHex.fromHex_toHex _
        obtain ⟨-, hsent⟩ := ha x maker hmaker hpeer
        obtain ⟨m, hm, rfl⟩ := hsent r rfl
        exact h.posted x maker hmaker m hm hx
      | findNode target => cases hrecord
      | findProviders key => cases hrecord
      | ping nonce => cases hrecord

theorem lapsing_step [LawfulPeerIdHex] (h : net.Lapsing x contentKey t) (hp : net.Provenance)
    {e : SwarmEvent} (ha : net.Authentic e) (hanswered : net.AnsweredByNodes e)
    (he : net.Ebbs x contentKey t e) : (net.step e).Lapsing x contentKey t := by
  rcases net.step_cases e with hsame | ⟨peerId, node, e', htakes⟩
  · rwa [hsame]
  have ⟨hnode, hnodes, _, hevent⟩ := htakes
  have hbuilt : ∀ r ∈ builtBy node e', Lapses x contentKey t r := by
    have hown := htakes.own
    rw [← hown.1] at hnode
    rw [← hown.2]
    exact he.built node hnode
  refine ⟨?_, ?_, ?_, ?_, ?_, ?_⟩
  · obtain ⟨maker, hmaker⟩ := h.here
    by_cases hid : x = peerId
    · exact ⟨node.step e', by rw [hnodes, hid, AList.lookup_insert]⟩
    · exact ⟨maker, by rw [hnodes, AList.lookup_insert_ne hid, hmaker]⟩
  · refine forall_moved hnodes h.stored ?_
    refine forall_stored_event (hp.truthful peerId node hnode).sound.valid
      (h.stored peerId node hnode) ?_
    intro r now hput
    rcases mem_built_or_given hput with hnew | hold | ⟨record, rfl, hgiven⟩
    · exact hbuilt r hnew
    · exact h.inHand peerId node hnode r hold
    · exact (h.given hp ha he htakes hgiven).clamped _ now
  · exact forall_cached_step hanswered h.cached
      fun exchange hexchange r hr _ hle => (h.answered exchange hexchange r hr).shortened hle
  · refine forall_moved hnodes h.inHand ?_
    intro r hr
    rcases inHand_step hr with hold | hnew
    · exact h.inHand peerId node hnode r hold
    · exact hbuilt r hnew
  · refine forall_moved hnodes h.posted ?_
    intro m hm
    rcases posted_step hm with hold | hhand | hnew
    · exact h.posted peerId node hnode m hold
    · exact h.inHand peerId node hnode _ hhand
    · exact hbuilt _ hnew
  · intro exchange hmem r hr
    rcases hevent with ⟨-, hlog⟩ | ⟨caller, request, now, -, -, hlog⟩
    · rw [hlog] at hmem
      exact h.answered exchange hmem r hr
    · rw [hlog] at hmem
      rcases List.mem_append.mp hmem with hold | hnew
      · exact h.answered exchange hold r hr
      · obtain ⟨res, hres, rfl⟩ := List.mem_map.mp hnew
        obtain ⟨k, y, entry, hentry, rfl⟩ :=
          mem_records_serveAt (Option.mem_toList.mp hres) r hr
        exact h.stored peerId node hnode k y entry hentry

/-! ## §3 Forgotten -/

/-- A reply about the content that does not name `x`. -/
def Silent (content : ContentId) (x : String) (net : SwarmRouter) (op : Op) : Reply → Prop
  | .records rs => op = .findProviders content ∨ op = .cachedProviders content →
      ∀ r ∈ rs, r.providerPeerId ≠ x
  | .holders ps => op = .holdersOf content →
      ∀ node, net.nodes.lookup x = some node → node.svc.localId ∉ ps
  | _ => True

/-- From `t` on nobody is told that `x` has the content: not who asks a
node, and not a node's own client. -/
structure Forgets (content : ContentId) (x : String) (t : Nat) (net : SwarmRouter)
    (e : SwarmEvent) : Prop where
  served : ∀ caller peerId now,
    e = .deliver caller peerId (.findProviders content.toKey.toHex) now → t ≤ now →
      ∀ node res, net.nodes.lookup peerId = some node →
        (serveAt node caller (.findProviders content.toKey.toHex) now).2 = some res →
          ∀ r ∈ res.records, r.providerPeerId ≠ x
  replied : ∀ peerId node y, e = .act peerId (.call y) → net.nodes.lookup peerId = some node →
    (∀ i, t ≤ y.1.clock i) →
      Silent content x net y.1.op (Service.step node.svc y.1 y.2).2.reply

variable {content : ContentId}

omit [Deps] in
/-- What lapses is not read from a store. -/
theorem names_another_of_get {s : ProviderStore} (hs : s.WellFormed)
    (hlapse : ∀ k y e, s.entry k y = some e → Lapses x contentKey t e.record) {now : Nat}
    (hnow : t ≤ now) : ∀ r ∈ s.get contentKey now, r.providerPeerId ≠ x := by
  intro r hr
  obtain ⟨y, e, he, rfl, hlive⟩ := ProviderStore.mem_get hr
  exact (hlapse _ y e he).names_another (hs.key_agrees _ y e he).1 hnow hlive

/-- Nor is it found. -/
theorem Lapsing.returned (h : net.Lapsing x content.toKey.toHex t) (hp : net.Provenance)
    {peerId : String} {node : Node} (hnode : net.nodes.lookup peerId = some node)
    {clock : Nat → Nat} (hclock : ∀ i, t ≤ clock i) {swarm : Swarm} (hswarm : net.Relays swarm)
    {r : ProviderRecord} (hr : r ∈ (node.svc.findProviders clock swarm content).2.1) :
    r.providerPeerId ≠ x := by
  have hvalid := (hp.truthful peerId node hnode).sound.valid
  have hkey := DhtService.contentKey_of_returned hvalid hr
  have hnow : t ≤ node.svc.mergeInstant clock content := by
    unfold DhtService.mergeInstant
    split <;> exact hclock _
  obtain ⟨hlive, hmem⟩ := DhtService.mem_returned hr
  refine Lapses.names_another ?_ hkey hnow hlive
  rcases hmem with hlocal | hcached | ⟨q, hq, rfl⟩
  · obtain ⟨y, e, he, rfl, -⟩ := ProviderStore.mem_get hlocal
    exact h.stored peerId node hnode _ y e he
  · obtain ⟨y, e, he, rfl, -⟩ := ProviderStore.mem_get hcached
    exact h.cached peerId node hnode _ y e he
  · obtain ⟨e, he, r, hr', rfl⟩ := hswarm.carried (DhtService.mem_providers_runLookup hq).1
    exact (h.answered e he r hr').normalized.normalized

theorem forgets_of_lapsing (h : net.Lapsing x content.toKey.toHex t) (hp : net.Provenance)
    (hcaches : net.CachesGenuine) {e : SwarmEvent} (hanswered : net.AnsweredByNodes e) :
    net.Forgets content x t e := by
  constructor
  · rintro caller peerId now rfl hnow node res hnode hres
    have hserved : res = .providers (node.svc.providers.get content.toKey.toHex now) _ :=
      answer_findProviders (Prod.ext rfl hres)
    rw [hserved]
    exact names_another_of_get (hp.truthful peerId node hnode).sound.valid.providers
      (h.stored peerId node hnode) hnow
  · rintro peerId node ⟨⟨op, clock, order, hperm⟩, world⟩ rfl hnode hclock
    have hvalid := (hp.truthful peerId node hnode).sound.valid
    cases hreply : (Service.step node.svc ⟨op, clock, order, hperm⟩ world).2.reply with
    | records rs =>
      rintro (rfl | rfl) r hr
      · cases hreply
        exact h.returned hp hnode hclock (hanswered 0) hr
      · cases hreply
        exact names_another_of_get hvalid.discovered (h.cached peerId node hnode) (hclock 0) r hr
    | holders ps =>
      rintro rfl maker hmaker hmem
      cases hreply
      obtain ⟨r, hr, hprovider⟩ := List.mem_filterMap.mp hmem
      -- What names the identity of `x` is spelled `x`.
      have hmade := (hp.returned hcaches hnode (hanswered 0) hr).2 x maker hmaker hprovider
      refine h.returned hp hnode hclock (hanswered 0) hr ?_
      rw [hmade.spelled]
      exact (hp.keyed x maker hmaker).symm
    | unit => trivial
    | flag b => trivial
    | count n => trivial
    | contacts cs => trivial
    | put outcome => trivial
    | snapshot s => trivial
    | response res => trivial
    | noPeers => trivial
    | panicked => trivial

/-- **What is no longer announced is forgotten.** Let deliveries be
authentic and lookups be told what nodes answered, and let every record
that the node `x` builds for a content, and every one of `x` for it that
is ingested anywhere, expire at `t` or before: it has withdrawn it, say,
one lifetime ago. Then so does every record of `x` for it on any node, in
any cache, on its way or in an answer. From `t` on no node tells anybody
that `x` has the content. -/
theorem withdrawn_forgotten [LawfulPeerIdHex] (hfresh : net.Fresh)
    (hx : ∃ node, net.nodes.lookup x = some node) {run : List SwarmEvent}
    (hrun : EachStep step (fun net e => (net.Authentic e ∧ net.AnsweredByNodes e) ∧
      net.Ebbs x content.toKey.toHex t e) net run) :
    Always step (Lapsing x content.toKey.toHex t) net run ∧
      EachStep step (Forgets content x t) net run := by
  have hkeep : ∀ (net : SwarmRouter) (e : SwarmEvent),
      net.Lapsing x content.toKey.toHex t ∧ net.Provenance ∧ net.CachesGenuine →
      (net.Authentic e ∧ net.AnsweredByNodes e) ∧ net.Ebbs x content.toKey.toHex t e →
        (net.step e).Lapsing x content.toKey.toHex t ∧ (net.step e).Provenance ∧
          (net.step e).CachesGenuine := by
    intro net e h he
    exact ⟨lapsing_step h.1 h.2.1 he.1.1 he.1.2 he.2, provenance_step h.2.1 he.1.1,
      cachesGenuine_step h.2.1 h.2.2 he.1.2⟩
  have hstart : net.Lapsing x content.toKey.toHex t ∧ net.Provenance ∧ net.CachesGenuine :=
    ⟨lapsing_fresh hfresh hx, provenance_fresh hfresh, cachesGenuine_fresh hfresh⟩
  constructor
  · exact (always_of_eachStep hkeep hstart hrun).imp fun net h => h.1
  · exact hrun.imp hkeep (fun net e h he => forgets_of_lapsing h.1 h.2.1 h.2.2 he.1.2) hstart

end SwarmRouter

end Lifetime

section Samples

attribute [local instance] sampleDeps

/-- Peer 9 withdraws the content. When its record has run out, peer 1 asks
for it. -/
def withdrawing : List SwarmEvent :=
  [.act (sampleId 9) (.call (.at 200 (.withdrawProvider sampleContent),
      hearing (meetings ++ announcing))),
    asks 1 sampleContent.toKey 7300]

def searching : SwarmEvent :=
  .act (sampleId 1) (.call (.at 7300 (.findProviders sampleContent),
    hearing (meetings ++ announcing ++ withdrawing)))

namespace SwarmRouter

/-- It is not found. -/
theorem withdrawn_forgotten_three :
    EachStep step (Forgets sampleContent (sampleId 9) 7300) sampleRouter
      (meetings ++ announcing ++ withdrawing ++ [searching]) := by
  have hanswered : EachStep step AnsweredByNodes sampleRouter
      (meetings ++ announcing ++ withdrawing ++ [searching]) := by
    have hwithdrawing : EachStep step AnsweredByNodes
        (exec step sampleRouter (meetings ++ announcing)) withdrawing :=
      ⟨fun i => relays_relay _, trivial, trivial⟩
    exact eachStep_append.mpr ⟨eachStep_append.mpr ⟨answered_announcing, hwithdrawing⟩,
      fun i => relays_relay _, trivial⟩
  have hauthentic : EachStep step (fun net e => net.Authentic e ∧
      net.Ebbs (sampleId 9) sampleContent.toKey.toHex 7300 e) sampleRouter
      (meetings ++ announcing ++ withdrawing ++ [searching]) := by decide +kernel
  exact (withdrawn_forgotten fresh_sampleRouter ⟨_, rfl⟩
    ((hanswered.and hauthentic).imp (I := fun _ => True) (fun _ _ _ _ => trivial)
      (fun _ _ _ he => ⟨⟨he.2.1, he.1⟩, he.2.2⟩) trivial)).2

end SwarmRouter

end Samples

end DigDht.Network
