/-
DigDht.Network.FindTheorems — what was announced is found.

Here the two halves meet: records are where lookups go
(`DigDht.Network.RoutingTheorems`), and they are what nodes announced
(`DigDht.Network.ProvenanceTheorems`). §1 follows the records for one
content while nothing about it is removed or runs out (`Sustains`). Where
no more nodes announce it than fit under one key, none is displaced
(`Stocked`). §2 follows a node that has a record: from then on it answers
with one (`Holds`). §3 is the result. If any of the nodes nearest to the
content has a record for it, `find_providers` run by any node finds one,
and finds nobody that did not announce the content (`find_providers_found`).
-/
import DigDht.Network.RoutingTheorems
import DigDht.Service.FindableTheorems
import DigDht.Store.TenureTheorems

namespace DigDht.Network

open Keyspace Record Routing Lookup Store Wire Content Service Runs

section Find

variable [Deps]

/-- The instant at which the event asks a node about the key, if it does. -/
def SwarmEvent.askedAt (contentKey : String) : SwarmEvent → Option Nat
  | .deliver _ _ (.findProviders asked) now => if asked = contentKey then some now else none
  | _ => none

namespace SwarmRouter

/-! ## §1 The records for one content -/

/-- An event of a network by itself, with the answers its nodes gave and
the callers mTLS names. -/
structure Orderly (N : Lookup.Network) (net : SwarmRouter) (e : SwarmEvent) : Prop where
  closed : Closed N e
  answered : net.AnsweredByNodes e
  authentic : net.Authentic e

/-- The event leaves the records for the content to last until `t`, the
nodes asked for them are asked before, and who announces the content is
one of `ids`. -/
@[mk_iff] structure Sustains (ids : List String) (content : ContentId) (t : Nat)
    (net : SwarmRouter) (e : SwarmEvent) : Prop where
  upholds : ∀ node ∈ net.nodes.lookup e.peerId, ∀ op ∈ node.storeOps e.event,
    ProviderStore.Upholds content.toKey.toHex t op
  announcers : ∀ a ∈ announcements e.peerId e.event, a.content.toKey = content.toKey →
    a.peerId ∈ ids
  asked : ∀ now ∈ e.askedAt content.toKey.toHex, now < t

instance (ids : List String) (content : ContentId) (t : Nat) (net : SwarmRouter) (e : SwarmEvent) :
    Decidable (Sustains ids content t net e) :=
  decidable_of_iff _ (sustains_iff ids content t net e).symm

/-- The records for the content, wherever they are: they last until `t`,
and are few enough. All records name members. -/
structure Stocked (N : Lookup.Network) (k : Nat) (ids : List String) (content : ContentId) (t : Nat)
    (net : SwarmRouter) : Prop where
  community : net.Community N k
  provenance : net.Provenance
  caches : net.CachesGenuine
  log : ∀ a ∈ net.announced, a.content.toKey = content.toKey → a.peerId ∈ ids
  tenured : ∀ peerId node, net.nodes.lookup peerId = some node →
    node.svc.providers.Tenured ids content.toKey.toHex t
  members : ∀ peerId node, net.nodes.lookup peerId = some node →
    ∀ k x y, node.svc.providers.entry k x = some y → y.record.providerPeerId ∈ N.ids
  cached : ∀ peerId node, net.nodes.lookup peerId = some node →
    ∀ k x y, node.svc.discovered.entry k x = some y → y.record.providerPeerId ∈ N.ids
  answered : ∀ e ∈ net.answered, ∀ r ∈ e.response.records, r.providerPeerId ∈ N.ids ∧
    (r.contentKey = content.toKey.toHex → t ≤ r.expiresAt)

variable {N : Lookup.Network} {k : Nat} {ids : List String} {content : ContentId} {t : Nat}
  {net : SwarmRouter}

theorem Sustains.announcer {e : SwarmEvent} (he : Sustains ids content t net e) {peerId : String}
    {node : Node} {e' : Event} (htakes : net.Takes e peerId node e') {a : Announcement}
    (ha : a ∈ announcements peerId e') (hcontent : a.content.toKey = content.toKey) :
    a.peerId ∈ ids := by
  obtain ⟨rfl, rfl⟩ := htakes.own
  exact he.announcers a ha hcontent

theorem stocked_fresh (h : net.Fresh) (hc : net.Community N k)
    (hroom : ∀ peerId node, net.nodes.lookup peerId = some node →
      ids.length ≤ node.svc.config.providerStoreLimits.maxProvidersPerKey) :
    net.Stocked N k ids content t := by
  refine ⟨hc, provenance_fresh h, cachesGenuine_fresh h, by simp [h.announced], ?_, ?_, ?_,
    by simp [h.answered]⟩
  · intro peerId node hnode
    have hfits := hroom peerId node hnode
    obtain ⟨localId, addresses, config, -, rfl⟩ := h.nodes peerId node hnode
    exact ProviderStore.tenured_withLimits hfits
  · intro peerId node hnode
    obtain ⟨localId, addresses, config, -, rfl⟩ := h.nodes peerId node hnode
    simp [Node.start, DhtService.new, ProviderStore.withLimits, ProviderStore.entry]
  · intro peerId node hnode
    obtain ⟨localId, addresses, config, -, rfl⟩ := h.nodes peerId node hnode
    simp [Node.start, DhtService.new, ProviderStore.withLimits, ProviderStore.entry]

/-- A genuine record that names a member, the member made. -/
theorem Genuine.made [LawfulPeerIdHex] (hc : net.Community N k) {r : ProviderRecord}
    (hr : net.Genuine r) (hmember : r.providerPeerId ∈ N.ids) :
    ∃ node, net.nodes.lookup r.providerPeerId = some node ∧
      MadeBy net.announced node.svc.toNodeProfile r := by
  obtain ⟨node, hnode⟩ := (hc.members _).mp hmember
  refine ⟨node, hnode, hr _ node hnode ?_⟩
  rw [ProviderRecord.provider, hc.keyed _ node hnode]
  exact LawfulPeerIdHex.fromHex_toHex _

/-- So it names one of those that announced its content. -/
theorem Genuine.announcer [LawfulPeerIdHex] (hc : net.Community N k)
    (hlog : ∀ a ∈ net.announced, a.content.toKey = content.toKey → a.peerId ∈ ids)
    {r : ProviderRecord} (hr : net.Genuine r) (hmember : r.providerPeerId ∈ N.ids)
    (hkey : r.contentKey = content.toKey.toHex) : r.providerPeerId ∈ ids := by
  obtain ⟨node, hnode, hmade⟩ := hr.made hc hmember
  obtain ⟨a, ha, hid, hcontent, -⟩ := hmade.announced
  rw [hmade.spelled, ← hid]
  exact hlog a ha (Key.toHex_injective (hcontent.trans hkey))

/-- What an event puts into a store names a member. -/
theorem offered_member (hc : net.Community N k) (hp : net.Provenance) {e : SwarmEvent}
    (hclosed : Closed N e) {peerId : String} {node : Node} {e' : Event}
    (htakes : net.Takes e peerId node e') {r : ProviderRecord} {now : Nat}
    (hput : StoreOp.putAt r now ∈ node.storeOps e') : r.providerPeerId ∈ N.ids := by
  rcases (hp.truthful peerId node htakes.here).offered hput with hmade | ⟨record, rfl, hgiven⟩
  · rw [hmade.spelled]
    refine (hc.members _).mpr ⟨node, ?_⟩
    have hid : peerId = node.svc.selfId := hc.keyed peerId node htakes.here
    exact hid ▸ htakes.here
  · show record.providerPeerId ∈ N.ids
    rcases htakes.answered with ⟨rfl, -⟩ | ⟨caller, request, t, rfl, rfl, -⟩
    · cases e' with
      | call x =>
        simp only [Closed] at hclosed
        rcases hgiven with hop | ⟨caller, hop, -⟩ <;> rw [hop] at hclosed
        · exact hclosed.2 _ List.mem_cons_self
        · cases hclosed.1
      | startRepublish order hperm => exact hgiven.elim
      | startAnnounce content coin now now' => exact hgiven.elim
      | advance i now swarm => exact hgiven.elim
    · rcases hgiven with hop | ⟨caller', hop, -⟩
      · cases hop
      · injection hop with hcaller hrecord
        cases request with
        | addProvider r =>
          cases hrecord
          exact hclosed.2 r rfl
        | findNode target => cases hrecord
        | findProviders key => cases hrecord
        | ping nonce => cases hrecord

/-- The records an event stores for the content are of some of `ids`. -/
theorem putsAmong_of_takes [LawfulPeerIdHex] (h : net.Stocked N k ids content t)
    {e : SwarmEvent} (ho : net.Orderly N e) (he : Sustains ids content t net e)
    {peerId : String} {node : Node} {e' : Event} (htakes : net.Takes e peerId node e') :
    ∀ op ∈ node.storeOps e', ProviderStore.PutsAmong ids content.toKey.toHex op := by
  rintro op hop r now rfl hkey
  refine Genuine.announcer (community_step h.community ho.closed ho.answered) ?_
    (h.provenance.offered ho.authentic htakes hop)
    (offered_member h.community h.provenance ho.closed htakes hop) hkey
  intro a ha hcontent
  rw [htakes.announced] at ha
  rcases List.mem_append.mp ha with hold | hnew
  · exact h.log a hold hcontent
  · exact he.announcer htakes hnew hcontent

/-- Who has a record for the content keeps one. -/
theorem kept_of_takes [LawfulPeerIdHex] (h : net.Stocked N k ids content t)
    {e : SwarmEvent} (ho : net.Orderly N e) (he : Sustains ids content t net e)
    {peerId : String} {node : Node} {e' : Event} (htakes : net.Takes e peerId node e') :
    (node.step e').svc.providers.Tenured ids content.toKey.toHex t ∧
      ∀ x, (node.svc.providers.entry content.toKey.toHex x).isSome →
        ((node.step e').svc.providers.entry content.toKey.toHex x).isSome := by
  have hputs := putsAmong_of_takes h ho he htakes
  obtain ⟨rfl, rfl⟩ := htakes.own
  rw [Node.providers_step (h.provenance.truthful e.peerId node htakes.here).sound.valid]
  exact ProviderStore.kept_exec
    (fun op hop => ⟨he.upholds node htakes.here op hop, hputs op hop⟩)
    (h.tenured e.peerId node htakes.here)

theorem stocked_step [LawfulPeerIdHex] (h : net.Stocked N k ids content t)
    {e : SwarmEvent} (ho : net.Orderly N e) (he : Sustains ids content t net e) :
    (net.step e).Stocked N k ids content t := by
  rcases net.step_cases e with hsame | ⟨peerId, node, e', htakes⟩
  · rwa [hsame]
  have ⟨hnode, hnodes, hlog, hevent⟩ := htakes
  have hvalid := (h.provenance.truthful peerId node hnode).sound.valid
  refine ⟨community_step h.community ho.closed ho.answered,
    provenance_step h.provenance ho.authentic,
    cachesGenuine_step h.provenance h.caches ho.answered, ?_, ?_, ?_, ?_, ?_⟩
  · intro a ha hcontent
    rw [hlog] at ha
    rcases List.mem_append.mp ha with hold | hnew
    · exact h.log a hold hcontent
    · exact he.announcer htakes hnew hcontent
  · exact forall_moved hnodes h.tenured
      (kept_of_takes h ho he htakes).1
  · refine forall_moved hnodes h.members ?_
    exact forall_stored_event hvalid (h.members peerId node hnode)
      fun r now hput => offered_member h.community h.provenance ho.closed htakes hput
  · exact forall_cached_step (Q := fun r => r.providerPeerId ∈ N.ids) ho.answered h.cached
      fun exchange hexchange r hr _ _ => (h.answered exchange hexchange r hr).1
  · intro exchange hmem r hr
    rcases hevent with ⟨-, hexchanges⟩ | ⟨caller, request, now, -, -, hexchanges⟩
    · rw [hexchanges] at hmem
      exact h.answered exchange hmem r hr
    · rw [hexchanges] at hmem
      rcases List.mem_append.mp hmem with hold | hnew
      · exact h.answered exchange hold r hr
      · obtain ⟨res, hres, rfl⟩ := List.mem_map.mp hnew
        obtain ⟨key, x, y, hy, rfl⟩ := mem_records_serveAt (Option.mem_toList.mp hres) r hr
        refine ⟨h.members peerId node hnode key x y hy, ?_⟩
        intro hkey
        have hfiled := (hvalid.providers.key_agrees key x y hy).1
        rw [hkey] at hfiled
        subst hfiled
        exact (h.tenured peerId node hnode).lasting x y hy

/-! ## §2 A node that has a record -/

/-- The node `b` has a record of `x` for the content. -/
def Stores (content : ContentId) (b x : String) (net : SwarmRouter) : Prop :=
  ∃ node, net.nodes.lookup b = some node ∧
    (node.svc.providers.entry content.toKey.toHex x).isSome

theorem stores_step [LawfulPeerIdHex] (h : net.Stocked N k ids content t)
    {e : SwarmEvent} (ho : net.Orderly N e) (he : Sustains ids content t net e)
    {b x : String} (hb : net.Stores content b x) : (net.step e).Stores content b x := by
  rcases net.step_cases e with hsame | ⟨peerId, node, e', htakes⟩
  · rwa [hsame]
  obtain ⟨holder, hholder, hx⟩ := hb
  by_cases hid : b = peerId
  · subst hid
    rw [htakes.here] at hholder
    cases hholder
    exact ⟨_, by rw [htakes.nodes, AList.lookup_insert], (kept_of_takes h ho he htakes).2 x hx⟩
  · exact ⟨holder, by rw [htakes.nodes, AList.lookup_insert_ne hid, hholder], hx⟩

/-- Asked for the content, it answers with that record. -/
theorem Stocked.serves (h : net.Stocked N k ids content t) {caller : Contact} {b x : String}
    (hb : net.Stores content b x) {node : Node} (hnode : net.nodes.lookup b = some node)
    {now : Nat} (hnow : now < t) {response : DhtResponse}
    (hres : (serveAt node caller (.findProviders content.toKey.toHex) now).2 = some response) :
    ∃ r ∈ response.records, r.contentKey = content.toKey.toHex ∧ r.providerPeerId = x := by
  obtain ⟨holder, hholder, hx⟩ := hb
  rw [hnode] at hholder
  cases hholder
  have hserved : response = .providers (node.svc.providers.get content.toKey.toHex now) _ :=
    answer_findProviders (Prod.ext rfl hres)
  rw [hserved]
  exact ProviderStore.exists_mem_get
    (h.provenance.truthful b node hnode).sound.valid.providers (h.tenured b node hnode) hx hnow

/-- The node `b` has a record of `x` for the content, and when asked since
has answered with one. -/
structure Holds (content : ContentId) (b x : String) (n : Nat) (net : SwarmRouter) : Prop where
  stored : net.Stores content b x
  answered : ∀ e ∈ net.answered.drop n, e.callee = b →
    e.request = .findProviders content.toKey.toHex →
      ∃ r ∈ e.response.records, r.contentKey = content.toKey.toHex ∧ r.providerPeerId = x

theorem holds_step [LawfulPeerIdHex] (h : net.Stocked N k ids content t)
    {e : SwarmEvent} (ho : net.Orderly N e) (he : Sustains ids content t net e)
    {b x : String} {n : Nat} (hb : net.Holds content b x n) :
    (net.step e).Holds content b x n := by
  refine ⟨stores_step h ho he hb.stored, ?_⟩
  rcases net.step_cases e with hsame | ⟨peerId, node, e', hnode, -, -, hevent⟩
  · rw [hsame]
    exact hb.answered
  rcases hevent with ⟨-, hlog⟩ | ⟨caller, request, now, rfl, -, hlog⟩
  · rw [hlog]
    exact hb.answered
  · intro exchange hmem hcallee hrequest
    have hmem' : exchange ∈ net.answered.drop n ∨ exchange ∈ (serveAt node caller request
        now).2.toList.map fun res => (⟨caller, peerId, request, res⟩ : Exchange) := by
      rw [hlog, List.drop_append] at hmem
      exact (List.mem_append.mp hmem).imp_right List.mem_of_mem_drop
    rcases hmem' with hold | hnew
    · exact hb.answered exchange hold hcallee hrequest
    · obtain ⟨res, hres, rfl⟩ := List.mem_map.mp hnew
      cases hcallee
      cases hrequest
      exact h.serves hb.stored hnode (he.asked now (if_pos rfl)) (Option.mem_toList.mp hres)

/-- The exchange is an AddProvider for the content that was accepted. -/
def Acknowledges (content : ContentId) (e : Exchange) (x : String) : Prop :=
  e.response = .addProviderOk ∧ ∃ r, e.request = .addProvider r ∧
    r.contentKey = content.toKey.toHex ∧ r.providerPeerId = x

/-- What was acknowledged is stored, and was served whenever it was asked
for. -/
structure Acknowledged (content : ContentId) (net : SwarmRouter) : Prop where
  stored : ∀ e ∈ net.answered, ∀ x, Acknowledges content e x → net.Stores content e.callee x
  served : net.answered.Pairwise fun e e' => e'.callee = e.callee →
    e'.request = .findProviders content.toKey.toHex → ∀ x, Acknowledges content e x →
      ∃ r ∈ e'.response.records, r.contentKey = content.toKey.toHex ∧ r.providerPeerId = x

/-- What a node has just acknowledged it stores. -/
theorem stores_of_acknowledges {caller : Contact} {peerId : String} {request : DhtRequest}
    {now : Nat} {node : Node} (hnode : net.nodes.lookup peerId = some node)
    {response : DhtResponse} (hres : (serveAt node caller request now).2 = some response)
    {x : String} (hack : Acknowledges content ⟨caller, peerId, request, response⟩ x) :
    (net.step (.deliver caller peerId request now)).Stores content peerId x := by
  obtain ⟨hok, r, hrequest, hkey, hx⟩ := hack
  cases hok
  cases hrequest
  refine ⟨(serveAt node caller (.addProvider r) now).1, by simp [step, hnode], ?_⟩
  obtain ⟨hstore, haccepted⟩ := DhtService.accepted_spec hres
  obtain ⟨e, he, -⟩ := ProviderStore.entry_putAt_accepted haccepted
  have hentry : (serveAt node caller (.addProvider r) now).1.svc.providers.entry
      r.contentKey r.providerPeerId = some e := by
    show (DhtService.handleRequestFrom node.svc now (some caller)
      (.addProvider r.normalized)).1.providers.entry _ _ = some e
    rw [hstore]
    exact he
  rw [← hkey, ← hx, hentry]
  rfl

theorem acknowledged_step [LawfulPeerIdHex] (h : net.Stocked N k ids content t)
    {e : SwarmEvent} (ho : net.Orderly N e) (he : Sustains ids content t net e)
    (hacks : net.Acknowledged content) : (net.step e).Acknowledged content := by
  have hkept : ∀ a ∈ net.answered, ∀ x, Acknowledges content a x →
      (net.step e).Stores content a.callee x :=
    fun a ha x hack => stores_step h ho he (hacks.stored a ha x hack)
  rcases net.step_cases e with hsame | ⟨peerId, node, e', hnode, -, -, hevent⟩
  · rwa [hsame]
  rcases hevent with ⟨-, hlog⟩ | ⟨caller, request, now, rfl, -, hlog⟩
  · exact ⟨by rwa [hlog], by rw [hlog]; exact hacks.served⟩
  · refine ⟨?_, ?_⟩ <;> rw [hlog]
    · intro a ha x hack
      rcases List.mem_append.mp ha with hold | hnew
      · exact hkept a hold x hack
      · obtain ⟨res, hres, rfl⟩ := List.mem_map.mp hnew
        exact stores_of_acknowledges hnode (Option.mem_toList.mp hres) hack
    · refine List.pairwise_append.mpr ⟨hacks.served, ?_, ?_⟩
      · -- A delivery is answered once.
        cases (serveAt node caller request now).2 <;> simp
      · intro a ha b hb hcallee hrequest x hack
        obtain ⟨res, hres, rfl⟩ := List.mem_map.mp hb
        cases hrequest
        have hstored := hacks.stored a ha x hack
        rw [← hcallee] at hstored
        exact h.serves hstored hnode (he.asked now (if_pos rfl)) (Option.mem_toList.mp hres)

/-- **What is acknowledged is served.** In a fresh network that deals with
itself only, its callers and ingested records its members' own, where the
records for a content are few enough, do not run out and are not removed:
a node that has answered AddProviderOk to a provider of the content names
that provider in every later answer about it, whatever of this network it
meets in between, and has the record still. -/
theorem acknowledged_served [LawfulPeerIdHex] (hfresh : net.Fresh) (hc : net.Community N k)
    (hroom : ∀ peerId node, net.nodes.lookup peerId = some node →
      ids.length ≤ node.svc.config.providerStoreLimits.maxProvidersPerKey)
    {run : List SwarmEvent}
    (hrun : EachStep step (fun net e => net.Orderly N e ∧ net.Sustains ids content t e) net run) :
    (exec step net run).Acknowledged content := by
  have hstart : net.Stocked N k ids content t ∧ net.Acknowledged content :=
    ⟨stocked_fresh hfresh hc hroom, by simp [hfresh.answered], by simp [hfresh.answered]⟩
  have hall := always_of_eachStep
    (Q := fun net : SwarmRouter => net.Stocked N k ids content t ∧ net.Acknowledged content)
    (fun net e h he => ⟨stocked_step h.1 he.1 he.2, acknowledged_step h.1 he.1 he.2 h.2⟩)
    hstart hrun
  exact hall.last.2

/-! ## §3 `find_providers` -/

/-- What a lookup makes of an answer: its records for the content. -/
theorem providers_queryOutcome {contentKey : String} {response : DhtResponse}
    {outcome : QueryOutcome} (h : queryOutcome contentKey (some response.norm) = some outcome) :
    outcome.providers = (response.records.map ProviderRecord.normalized).filter
      fun r => r.contentKey = contentKey := by
  cases response with
  | providers records closer => cases h; rfl
  | nodes cs => cases h; rfl
  | addProviderOk => cases h
  | pong nonce => cases h
  | error code message => cases h

theorem Heard.mono {log log' : List Exchange} {target : Key} {w : Walk} (h : Heard log target w)
    (hlog : log ⊆ log') : Heard log' target w := by
  intro a ha
  obtain ⟨e, he, hrest⟩ := h a ha
  exact ⟨e, hlog he, hrest⟩

/-- What a lookup folded, nodes answered. -/
theorem Heard.folded {log : List Exchange} {svc : DhtService} {swarm : Swarm}
    (h : Heard log content.toKey (svc.providerWalk swarm content).1) {q : ProviderRecord}
    (hq : q ∈ svc.folded swarm content) :
    ∃ e ∈ log, ∃ r ∈ e.response.records, q = r.normalized ∧
      r.contentKey = content.toKey.toHex := by
  obtain ⟨a, ha, hmem⟩ := List.mem_flatMap.mp hq
  obtain ⟨e, he, -, -, hanswer⟩ := h a ha
  rw [LookupParams.contribution] at hmem
  cases houtcome : a.2 with
  | none =>
    rw [houtcome] at hmem
    cases hmem
  | some outcome =>
    rw [houtcome] at hmem hanswer
    have hkept := List.mem_of_mem_take hmem
    rw [providers_queryOutcome hanswer.symm] at hkept
    obtain ⟨hmapped, hkey⟩ := List.mem_filter.mp hkept
    obtain ⟨r, hr, rfl⟩ := List.mem_map.mp hmapped
    exact ⟨e, he, r, hr, rfl, of_decide_eq_true hkey⟩

/-- An answer with a record for the content leaves some to fold. -/
theorem Heard.exists_folded {log : List Exchange} {svc : DhtService} {swarm : Swarm}
    (h : Heard log content.toKey (svc.providerWalk swarm content).1) {b : String}
    (hasked : b ∈ askedIds (svc.providerWalk swarm content).1)
    {x : String} (hanswered : ∀ e ∈ log, e.callee = b →
      e.request = .findProviders content.toKey.toHex →
        ∃ r ∈ e.response.records, r.contentKey = content.toKey.toHex ∧ r.providerPeerId = x) :
    ∃ q, q ∈ svc.folded swarm content := by
  obtain ⟨a, ha, rfl⟩ := mem_askedIds.mp hasked
  obtain ⟨e, he, hcallee, hrequest, hanswer⟩ := h a ha
  obtain ⟨r, hr, hkey, -⟩ := hanswered e he hcallee hrequest
  obtain ⟨outcome, houtcome⟩ : ∃ outcome, a.2 = some outcome := by
    rw [hanswer]
    cases hres : e.response with
    | providers records closer => exact ⟨_, rfl⟩
    | nodes cs => exact ⟨_, rfl⟩
    | addProviderOk => rw [hres] at hr; cases hr
    | pong nonce => rw [hres] at hr; cases hr
    | error code message => rw [hres] at hr; cases hr
  have hmem : r.normalized ∈ outcome.providers := by
    rw [providers_queryOutcome (hanswer.symm.trans houtcome)]
    exact List.mem_filter.mpr ⟨List.mem_map_of_mem hr, decide_eq_true hkey⟩
  -- The ceiling lets at least one record through.
  have hsome : outcome.providers.take (svc.lookupParams content.toKey true).providerCap ≠ [] := by
    rw [ne_eq, List.take_eq_nil_iff, not_or]
    refine ⟨?_, List.ne_nil_of_mem hmem⟩
    have hpos : 0 < maxProvidersPerResponse := by decide
    unfold LookupParams.providerCap
    omega
  obtain ⟨q, hq⟩ := List.exists_mem_of_ne_nil _ hsome
  refine ⟨q, List.mem_flatMap.mpr ⟨a, ha, ?_⟩⟩
  rw [LookupParams.contribution, houtcome]
  exact hq

/-- Without a lookup a node returns what is in its two stores. -/
theorem mem_stores_of_returned {svc : DhtService} {clock : Nat → Nat} {swarm : Swarm}
    (h : ¬svc.Searches (clock 0) content) {r : ProviderRecord}
    (hr : r ∈ (svc.findProviders clock swarm content).2.1) :
    r ∈ svc.providers.get content.toKey.toHex (clock 0) ∨
      r ∈ svc.discovered.get content.toKey.toHex (clock 0) := by
  unfold DhtService.findProviders at hr
  by_cases hcached : svc.discovered.get content.toKey.toHex (clock 0) = []
  · have hseeds : svc.seedContacts content.toKey = [] := by
      by_contra hseeds
      exact h ⟨hcached, hseeds⟩
    simp only [hcached, hseeds, ne_eq, not_true_eq_false, if_false, if_true] at hr
    exact Or.inl hr
  · simp only [ne_eq, hcached, not_false_eq_true, if_true] at hr
    exact List.mem_append.mp (mem_dedupLive hr).1

/-- Every record a node returns for the content, a node made that
announced it. -/
theorem Stocked.returned [LawfulPeerIdHex] (h : net.Stocked N k ids content t) {peerId : String}
    {node : Node} (hnode : net.nodes.lookup peerId = some node) {clock : Nat → Nat}
    {swarm : Swarm} (hheard : node.svc.Searches (clock 0) content →
      Heard net.answered content.toKey (node.svc.providerWalk swarm content).1)
    {r : ProviderRecord} (hr : r ∈ (node.svc.findProviders clock swarm content).2.1) :
    r.providerPeerId ∈ ids ∧ ∃ maker, net.nodes.lookup r.providerPeerId = some maker ∧
      MadeBy net.announced maker.svc.toNodeProfile r := by
  have hvalid := (h.provenance.truthful peerId node hnode).sound.valid
  have hlocal : ∀ r ∈ node.svc.providers.get content.toKey.toHex (clock 0),
      r.providerPeerId ∈ N.ids ∧ net.Genuine r := by
    intro r hr
    obtain ⟨x, e, he, rfl, -⟩ := ProviderStore.mem_get hr
    exact ⟨h.members peerId node hnode _ x e he, h.provenance.stored peerId node hnode _ x e he⟩
  have hcached : ∀ r ∈ node.svc.discovered.get content.toKey.toHex (clock 0),
      r.providerPeerId ∈ N.ids ∧ net.Genuine r := by
    intro r hr
    obtain ⟨x, e, he, rfl, -⟩ := ProviderStore.mem_get hr
    exact ⟨h.cached peerId node hnode _ x e he, h.caches peerId node hnode _ x e he⟩
  have hgood : r.providerPeerId ∈ N.ids ∧ net.Genuine r := by
    by_cases hsearch : node.svc.Searches (clock 0) content
    · obtain ⟨-, hmem | hmem | ⟨q, hq, rfl⟩⟩ := DhtService.mem_returned hr
      · exact hlocal r hmem
      · exact hcached r hmem
      · obtain ⟨x, hx⟩ := FMap.mem_values_iff.mp hq
        rw [DhtService.lookup_providerWalk] at hx
        obtain ⟨e, he, r, hr', rfl, -⟩ := (hheard hsearch).folded (List.mem_of_find?_eq_some hx)
        exact ⟨(h.answered e he r hr').1, (h.provenance.answered e he r hr').normalized.normalized⟩
    · rcases mem_stores_of_returned hsearch hr with hmem | hmem
      · exact hlocal r hmem
      · exact hcached r hmem
  exact ⟨hgood.2.announcer h.community h.log hgood.1 (DhtService.contentKey_of_returned hvalid hr),
    hgood.2.made h.community hgood.1⟩

/-- A lookup that folded a record for the content returns one. -/
theorem Stocked.returned_ne_nil (h : net.Stocked N k ids content t) {node : Node}
    {clock : Nat → Nat} (hclock : ∀ i, clock i < t) {swarm : Swarm}
    (hsearch : node.svc.Searches (clock 0) content)
    (hheard : Heard net.answered content.toKey (node.svc.providerWalk swarm content).1)
    {q : ProviderRecord} (hq : q ∈ node.svc.folded swarm content) :
    (node.svc.findProviders clock swarm content).2.1 ≠ [] := by
  -- The first record folded for the provider of `q`.
  obtain ⟨first, hfirst⟩ : ∃ first, (node.svc.folded swarm content).find?
      (fun r => r.providerPeerId = q.providerPeerId) = some first := by
    refine Option.isSome_iff_exists.mp (List.find?_isSome.mpr ⟨q, hq, ?_⟩)
    simp
  obtain ⟨e, he, r, hr, rfl, hkey⟩ := hheard.folded (List.mem_of_find?_eq_some hfirst)
  have hlive : r.normalized.isExpired (clock 2) = false := by
    have hlast := (h.answered e he r hr).2 hkey
    have hnow := hclock 2
    rw [ProviderRecord.normalized_isExpired, ProviderRecord.isExpired, decide_eq_false_iff_not]
    omega
  have hnamed := (DhtService.searched_returned_iff swarm hsearch q.providerPeerId).mpr
    (Or.inr (by simp [DhtService.FirstLive, hfirst, hlive]))
  obtain ⟨found, hfound, -⟩ := hnamed
  exact List.ne_nil_of_mem hfound

/-- A lookup that stopped on providers folded one. -/
theorem exists_folded_of_stopped {svc : DhtService} {swarm : Swarm}
    (h : (svc.providerWalk swarm content).2 = .stoppedOnProviders) :
    ∃ q, q ∈ svc.folded swarm content := by
  have hspec := ((svc.lookupParams content.toKey true).walk_spec
    (swarm.peers content.toKey.toHex) (svc.seedContacts content.toKey)).2
  have hexit : (svc.lookupParams content.toKey true).ExitSpec
      (svc.providerWalk swarm content).1 .stoppedOnProviders := h ▸ hspec
  obtain ⟨q, hq⟩ := List.exists_mem_of_ne_nil _ (FMap.size_pos_iff.mp hexit.2)
  obtain ⟨x, hx⟩ := FMap.mem_values_iff.mp hq
  rw [DhtService.lookup_providerWalk] at hx
  exact ⟨q, List.mem_of_find?_eq_some hx⟩

/-- The records for the content over a whole run, and the answers of one
that had one by the end of `before`. -/
theorem stocked_and_held [LawfulPeerIdHex] {before after : List SwarmEvent}
    (h : net.Gathers N k before after)
    (hroom : ∀ peerId node, net.nodes.lookup peerId = some node →
      ids.length ≤ node.svc.config.providerStoreLimits.maxProvidersPerKey)
    (hrun : EachStep step (fun net e => net.Authentic e ∧ net.Sustains ids content t e) net
      (before ++ after))
    {b x : String} (hb : (exec step net before).Stores content b x) :
    (exec step net (before ++ after)).Stocked N k ids content t ∧
      (exec step net (before ++ after)).Holds content b x
        (exec step net before).answered.length := by
  have hkeep : ∀ (net : SwarmRouter) (e : SwarmEvent), net.Stocked N k ids content t →
      net.Orderly N e ∧ net.Sustains ids content t e → (net.step e).Stocked N k ids content t :=
    fun net e hs he => stocked_step hs he.1 he.2
  have horderly : EachStep step (fun net e => net.Orderly N e ∧ net.Sustains ids content t e) net
      (before ++ after) :=
    (h.run.and hrun).imp (I := fun _ => True) (fun _ _ _ _ => trivial)
      (fun _ _ _ he => ⟨⟨he.1.1.1, he.1.1.2, he.2.1⟩, he.2.2⟩) trivial
  obtain ⟨hbefore, hafter⟩ := eachStep_append.mp horderly
  have hstart : net.Stocked N k ids content t := stocked_fresh h.fresh h.community hroom
  have hcut : (exec step net before).Stocked N k ids content t :=
    (always_of_eachStep hkeep hstart hbefore).last
  have hheld : (exec step net before).Holds content b x (exec step net before).answered.length :=
    ⟨hb, by simp⟩
  rw [exec_append]
  exact (always_of_eachStep (Q := fun net' : SwarmRouter => net'.Stocked N k ids content t ∧
      net'.Holds content b x (exec step net before).answered.length)
    (fun net' e hs he => ⟨hkeep net' e hs.1 he, holds_step hs.1 he.1 he.2 hs.2⟩)
    ⟨hcut, hheld⟩ hafter).last

/-- **What was announced is found.** In a network by itself that has met,
its callers who they say they are and its ingested records verified, let
at most as many nodes announce a content as fit under one key, and let its
records not be removed nor run out before `t`. If one of the `k` nodes
nearest to its key has a record for it, then `find_providers`, run by any
node whose queries were answered since and whose lookup the guard does not
cut, finds one: only records that nodes which announced the content made,
and none twice. -/
theorem find_providers_found [LawfulPeerIdHex] {before after : List SwarmEvent}
    (h : net.Gathers N k before after)
    (hroom : ∀ peerId node, net.nodes.lookup peerId = some node →
      ids.length ≤ node.svc.config.providerStoreLimits.maxProvidersPerKey)
    (hrun : EachStep step (fun net e => net.Authentic e ∧ net.Sustains ids content t e) net
      (before ++ after))
    (hstored : ∃ b ∈ N.nearest content.toKey k, ∃ x,
      (exec step net before).Stores content b x) :
    let now := exec step net (before ++ after)
    let since := now.answered.drop (exec step net before).answered.length
    ∀ peerId node clock swarm, now.nodes.lookup peerId = some node → (∀ i, clock i < t) →
      (node.svc.Searches (clock 0) content →
        Heard since content.toKey (node.svc.providerWalk swarm content).1 ∧
          N.Uncut (node.svc.providerWalk swarm content).2) →
      let found := (node.svc.findProviders clock swarm content).2.1
      found ≠ [] ∧ (found.map ProviderRecord.providerPeerId).Nodup ∧
        ∀ r ∈ found, r.providerPeerId ∈ ids ∧
          ∃ maker, now.nodes.lookup r.providerPeerId = some maker ∧
            MadeBy now.announced maker.svc.toNodeProfile r := by
  intro now since peerId node clock swarm hnode hclock hheard found
  have hmet : now.Met N k (exec step net before).answered.length := h.now
  obtain ⟨b, hnearest, x, hb⟩ := hstored
  obtain ⟨hstocked, hholds⟩ := stocked_and_held h hroom hrun hb
  have hall : node.svc.Searches (clock 0) content →
      Heard now.answered content.toKey (node.svc.providerWalk swarm content).1 :=
    fun hsearch => (hheard hsearch).1.mono (List.drop_subset _ _)
  refine ⟨?_, ?_, fun r hr => hstocked.returned hnode hall hr⟩
  · by_cases hsearch : node.svc.Searches (clock 0) content
    · obtain ⟨q, hq⟩ : ∃ q, q ∈ node.svc.folded swarm content := by
        obtain ⟨hwalk, huncut⟩ := hheard hsearch
        rcases hmet.lookup h.positive h.two hnode hwalk huncut with
          ⟨-, hstopped⟩ | ⟨hasked, -⟩
        · exact exists_folded_of_stopped hstopped
        · exact hwalk.exists_folded (hasked b hnearest) hholds.answered
      exact hstocked.returned_ne_nil hclock hsearch (hall hsearch) hq
    · have hcached : node.svc.discovered.get content.toKey.toHex (clock 0) ≠ [] := by
        intro hnone
        exact hsearch ⟨hnone, hmet.seeds_ne_nil h.positive h.two hnode content.toKey⟩
      obtain ⟨r, hr⟩ := List.exists_mem_of_ne_nil _ hcached
      obtain ⟨r', hr', -⟩ := (DhtService.unsearched_returned_iff swarm hsearch r.providerPeerId).mpr
        ⟨r, List.mem_append_right _ hr, rfl⟩
      exact List.ne_nil_of_mem hr'
  · exact DhtService.nodup_returned (hstocked.provenance.truthful peerId node hnode).sound.valid
      clock swarm content

end SwarmRouter

end Find

section Samples

attribute [local instance] sampleDeps

namespace SwarmRouter

theorem room_three : ∀ peerId node, sampleRouter.nodes.lookup peerId = some node →
    [sampleId 9].length ≤ node.svc.config.providerStoreLimits.maxProvidersPerKey := by
  intro peerId node hnode
  have hall : ∀ s ∈ sampleRouter.nodes.entries,
      [sampleId 9].length ≤ s.2.svc.config.providerStoreLimits.maxProvidersPerKey := by
    decide +kernel
  exact hall ⟨peerId, node⟩ (FMap.mk_mem_entries.mpr hnode)

theorem sustained_three : EachStep step
    (fun net e => net.Authentic e ∧ net.Sustains [sampleId 9] sampleContent 7300 e) sampleRouter
    (meetings ++ announcing ++ asking) := by
  decide +kernel

/-- Peer 211 has acknowledged the record of peer 9, and stores it. -/
theorem acknowledged_served_three :
    askedRouter.Stores sampleContent (sampleId 211) (sampleId 9) := by
  have horderly : EachStep step (fun net e => net.Orderly sampleMembers e ∧
      net.Sustains [sampleId 9] sampleContent 7300 e) sampleRouter
      (meetings ++ announcing ++ asking) :=
    (gathers_three.run.and sustained_three).imp (I := fun _ => True) (fun _ _ _ _ => trivial)
      (fun _ _ _ he => ⟨⟨he.1.1.1, he.1.1.2, he.2.1⟩, he.2.2⟩) trivial
  have hacks := acknowledged_served fresh_sampleRouter gathers_three.community room_three horderly
  refine hacks.stored ⟨Service.sampleContact 9, sampleId 211, .addProvider (sampleRecord 9 7300),
    .addProviderOk⟩ ?_ (sampleId 9) ⟨rfl, _, rfl, rfl, rfl⟩
  decide +kernel

/-- Peer 1 finds peer 9. -/
theorem find_providers_found_three :
    ∃ node r, askedRouter.nodes.lookup (sampleId 1) = some node ∧
      r ∈ (node.svc.findProviders (fun _ => 300) askedRouter.relay sampleContent).2.1 ∧
        r.providerPeerId = sampleId 9 := by
  obtain ⟨node, hnode, -, hheard, -⟩ := heard_three
  have hstored : ∃ holder ∈ (exec step sampleRouter (meetings ++ announcing)).nodes.lookup
      (sampleId 211), (holder.svc.providers.entry sampleContent.toKey.toHex
        (sampleId 9)).isSome := by
    decide +kernel
  obtain ⟨hne, -, hall⟩ := find_providers_found gathers_three room_three sustained_three
    ⟨sampleId 211, by decide +kernel, sampleId 9, hstored⟩ (sampleId 1) node (fun _ => 300)
    askedRouter.relay hnode (fun _ => by decide) (fun _ => ⟨hheard, Or.inr (by decide)⟩)
  obtain ⟨r, hr⟩ := List.exists_mem_of_ne_nil _ hne
  exact ⟨node, r, hnode, hr, List.mem_singleton.mp (hall r hr).1⟩

end SwarmRouter

end Samples

end DigDht.Network
