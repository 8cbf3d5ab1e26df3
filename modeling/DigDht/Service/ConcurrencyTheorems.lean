/-
DigDht.Service.ConcurrencyTheorems — what holds at every lock, under
every schedule.

Any number of operations run at once, each of them wherever its last
window left it. What the node holds is stated in terms of the `History`:
the operations started, by number, what the windows of each were given,
and what each of them sent and was told (§1). So a record that was only
heard of is one that an answer to a call of a lookup of that key told of.
§2 is the state at a free lock, and §3 one routine at a time: from any
such state, whoever left it, each window of a routine restores it, what it
sends is this node's own, and what it returns is accounted for. No routine
relies on finding the state as it left it. §4 puts the routines together,
in every schedule (`every_schedule_intact`), and finds the runs of
`DigDht.Service.Machine` among the schedules (`every_run_scheduled`).
-/
import DigDht.Service.IdentityTheorems
import DigDht.Service.RoutineTheorems
import DigDht.Service.ShapeTheorems

namespace DigDht.Service

open Keyspace Record Routing Lookup Store Wire Content Runs Routine DhtService

/-! ## §1 Where records come from -/

/-- The operations started, by number; what the windows of each were
given, and its exchanges. -/
structure History where
  started : Nat → Op → Prop
  met : Nat → Moment → Prop
  exchanged : Nat → Exchange → Prop

/-- The records an operation is handed to admit. -/
def Op.Hands : Op → ProviderRecord → Prop
  | .ingestVerifiedProvider record, r => record = r
  | .handleRequestFrom caller request, r =>
    request = .addProvider r ∧ namesAnother (caller.map Contact.peerId) r = false
  | _, _ => False

/-- The operations that build records of this node's own. -/
def Op.Publishes : Op → Prop
  | .announceProviderWithCollateral _ _ => True
  | .republish => True
  | _ => False

variable [Deps]

/-- The key an operation looks for providers of. -/
def Op.asks : Op → Option String
  | .findProviders content => some content.toKey.toHex
  | .holdersOf content => some content.toKey.toHex
  | _ => none

namespace History

variable (past : History) (node : NodeProfile)

/-- Some announce named the key, with this pointer. -/
def Announced (hex : String) (pointer : Option String) : Prop :=
  ∃ i content coin, past.started i (.announceProviderWithCollateral content coin) ∧
    hex = content.toKey.toHex ∧ pointer = coin.map toHex64

/-- This node's record for something it announced, built by an announce or
a republish; its pointer is that of an announce of the same key, or it has
none. -/
def Built (r : ProviderRecord) : Prop :=
  ∃ target announced pointer i op m, past.Announced target.toHex announced ∧
    (pointer = none ∨ pointer = announced) ∧ past.started i op ∧ op.Publishes ∧ past.met i m ∧
      r = node.republishedRecord pointer target m.now

/-- What the node makes of a record handed to it. -/
def Admitted (r : ProviderRecord) : Prop :=
  ∃ i op record m, past.started i op ∧ op.Hands record ∧ past.met i m ∧
    r = node.clampedRecord record m.now

/-- An answer to a call that the `i`-th operation made about the key told
of the record. -/
def Told (i : Nat) (key : String) (r : ProviderRecord) : Prop :=
  ∃ x q, past.exchanged i x ∧ x.request = .findProviders key ∧ q ∈ x.told ∧ r = q.normalized

/-- What the node caches of a record that an operation asking for its
providers was told of. -/
def Heard (key : String) (r : ProviderRecord) : Prop :=
  ∃ i op q m, past.started i op ∧ op.asks = some key ∧ past.Told i key q ∧ past.met i m ∧
    node.cacheEntry key m.now q = some r

theorem Announced.built {hex : String} {announced pointer : Option String} {target : Key}
    {i : Nat} {op : Op} {m : Moment} (h : past.Announced hex announced)
    (hpointer : pointer = none ∨ pointer = announced) (htarget : parseKey hex = some target)
    (hop : past.started i op) (hpublishes : op.Publishes) (hm : past.met i m) :
    past.Built node (node.republishedRecord pointer target m.now) := by
  obtain ⟨j, content, coin, hstarted, rfl, hcoin⟩ := h
  rw [parseKey_toHex] at htarget
  cases htarget
  exact ⟨content.toKey, announced, pointer, i, op, m, ⟨j, content, coin, hstarted, rfl, hcoin⟩,
    hpointer, hop, hpublishes, hm, rfl⟩

variable {past node}

/-- A record heard of is for the key asked about, and another node's. -/
theorem Heard.foreign {key : String} {r : ProviderRecord} (h : past.Heard node key r) :
    r.contentKey = key ∧ r.providerPeerId ≠ node.selfId := by
  obtain ⟨i, op, q, m, -, -, -, -, hentry⟩ := h
  obtain ⟨hkey, hprovider, hself, -, -⟩ := cacheEntry_spec hentry
  exact ⟨hkey, hprovider ▸ hself⟩

end History

/-! ## §2 The state at a free lock -/

section Judgement

variable (past : History) (node : NodeProfile)

/-- What a service with this profile satisfies: its structure is sound, its
stores keep to their limits, and all they hold is accounted for. -/
structure Intact (svc : DhtService) : Prop where
  profile : svc.toNodeProfile = node
  valid : svc.Valid
  unique : Routing.Unique svc.routing
  table : ∀ c ∈ svc.routing.contacts, WellShaped c.addresses
  providers_limits : svc.providers.limits = node.config.providerStoreLimits
  discovered_limits : svc.discovered.limits = node.config.discoveryCacheLimits
  providers_bounded : svc.providers.Bounded
  discovered_bounded : svc.discovered.Bounded
  stored : ∀ k x e, svc.providers.entry k x = some e →
    past.Built node e.record ∨ past.Admitted node e.record
  cached : ∀ k x e, svc.discovered.entry k x = some e → past.Heard node k e.record
  announced : ∀ hex pointer, svc.providers.announced.lookup hex = some pointer →
    past.Announced hex pointer

/-- What may be sent: lookups of a key, pings, and this node's own records
to others. -/
def Sends (x : Exchange) : Prop :=
  match x.request with
  | .findProviders hex => ∃ key : Key, hex = key.toHex
  | .addProvider record => past.Built node record ∧ x.peer.peerId ≠ node.selfId
  | .ping _ => True
  | .findNode _ => False

/-- The `i`-th routine keeps the state intact from window to window, sends
what it may, and returns what meets `Q`. -/
abbrev Keeps {β : Type} (i : Nat) (Q : β → Prop) (t : Async β) : Prop :=
  t.Upholds (Intact past node) (fun _ m => past.met i m) (past.exchanged i) (Sends past node) Q

end Judgement

section Routines

variable {past : History} {node : NodeProfile} {svc : DhtService} {i : Nat}

theorem intact_new (localId : PeerId) (addresses : List CandidateAddr) (config : DhtConfig) :
    Intact past ⟨localId, addresses, config⟩ (.new localId addresses config) where
  profile := rfl
  valid := valid_new localId addresses config
  unique := by simp [Routing.Unique, DhtService.new, KBucket.new]
  table := by simp [DhtService.new]
  providers_limits := rfl
  discovered_limits := rfl
  providers_bounded := ProviderStore.bounded_withLimits _
  discovered_bounded := ProviderStore.bounded_withLimits _
  stored := by simp [DhtService.new, ProviderStore.withLimits, ProviderStore.entry]
  cached := by simp [DhtService.new, ProviderStore.withLimits, ProviderStore.entry]
  announced := by simp [DhtService.new, ProviderStore.withLimits]

omit [Deps] in
/-- A store keeps to its limits. -/
theorem bounded_exec_ops {s : ProviderStore} (hs : s.WellFormed) (hbounded : s.Bounded)
    (ops : List StoreOp) : (exec Store.step s ops).Bounded := by
  have hboth : (exec Store.step s ops).WellFormed ∧ (exec Store.step s ops).Bounded :=
    exec_invariant (Q := fun s : ProviderStore => s.WellFormed ∧ s.Bounded)
      (fun s op h => ⟨ProviderStore.wellFormed_step h.1 op, ProviderStore.bounded_step h.1 h.2 op⟩)
      ⟨hs, hbounded⟩ ops
  exact hboth.2

/-- An operation on the authoritative store that is accounted for. -/
def Licit (past : History) (node : NodeProfile) : StoreOp → Prop
  | .putAt r _ => past.Built node r ∨ past.Admitted node r
  | .markAnnounced _ => False
  | .markAnnouncedWithCollateral hex pointer => past.Announced hex pointer
  | _ => True

namespace Intact

theorem selfId (h : Intact past node svc) : svc.selfId = node.selfId :=
  congrArg NodeProfile.selfId h.profile

theorem rerouted (h : Intact past node svc) {K : Contact → Prop} {routing : RoutingTable}
    (hmoves : Moves K svc.routing routing) : Intact past node { svc with routing } :=
  { h with
    valid := h.valid.rerouted hmoves.capped
    unique := hmoves.unique h.unique
    table := hmoves.capped.shaped h.table }

theorem restored (h : Intact past node svc) (ops : List StoreOp)
    (hops : ∀ op ∈ ops, Licit past node op) :
    Intact past node { svc with providers := exec Store.step svc.providers ops } := by
  have hmarks : ∀ op ∈ ops, ∀ hex, ProviderStore.marks op = some hex →
      ∃ key : Key, hex = key.toHex := by
    intro op hop hex hmark
    have hlicit := hops op hop
    cases op with
    | markAnnounced k => exact hlicit.elim
    | markAnnouncedWithCollateral k pointer =>
      cases hmark
      obtain ⟨-, content, -, -, hkey, -⟩ := hlicit
      exact ⟨content.toKey, hkey⟩
    | _ => cases hmark
  refine { h with
    valid := h.valid.stored ops hmarks
    providers_limits := (ProviderStore.limits_exec _ _).trans h.providers_limits
    providers_bounded := bounded_exec_ops h.valid.providers h.providers_bounded ops
    stored := ?_
    announced := ?_ }
  · intro k x e he
    rcases ProviderStore.entry_exec_cases he with hold | ⟨r, now, hput, -, hrecord⟩
    · exact h.stored k x e hold
    · rw [hrecord]
      exact hops _ hput
  · refine exec_invariant_mem (Q := fun s : ProviderStore => ∀ hex pointer,
      s.announced.lookup hex = some pointer → past.Announced hex pointer) ?_ h.announced
    intro s op hop hs hex pointer hpointer
    rcases ProviderStore.lookup_announced_cases hpointer with hold | rfl | ⟨rfl, -⟩
    · exact hs hex pointer hold
    · exact hops _ hop
    · exact (hops _ hop).elim

theorem recached (h : Intact past node svc) (ops : List StoreOp)
    (hops : ∀ r now, StoreOp.putAt r now ∈ ops → past.Heard node r.contentKey r) :
    Intact past node { svc with discovered := exec Store.step svc.discovered ops } := by
  refine { h with
    valid := h.valid.cached ops ?_
    discovered_limits := (ProviderStore.limits_exec _ _).trans h.discovered_limits
    discovered_bounded := bounded_exec_ops h.valid.discovered h.discovered_bounded ops
    cached := ?_ }
  · intro r now hput
    rw [h.selfId]
    exact (hops r now hput).foreign.2
  · intro k x e he
    rcases ProviderStore.entry_exec_cases he with hold | ⟨r, now, hput, hk, hrecord⟩
    · exact h.cached k x e hold
    · rw [hrecord, ← hk]
      exact hops r now hput

end Intact

/-! ## §3 One routine -/

namespace History

variable (past : History) (node : NodeProfile)

/-- What the `i`-th operation finds for the key: each provider once, and
every record accounted for. -/
def Found (i : Nat) (key : String) (rs : List ProviderRecord) : Prop :=
  (rs.map ProviderRecord.providerPeerId).Nodup ∧ ∀ r ∈ rs, r.contentKey = key ∧
    (past.Built node r ∨ past.Admitted node r ∨ past.Heard node key r ∨ past.Told i key r)

/-- Contacts as they are handed out: each once, in shape. -/
def Listed (cs : List Contact) : Prop :=
  (cs.map Contact.peerId).Nodup ∧ ∀ c ∈ cs, WellShaped c.addresses

/-- What is served to others: nothing that was only heard of, and each
provider once. -/
def Serves : DhtResponse → Prop
  | .nodes cs => Listed cs
  | .providers rs cs => (rs.map ProviderRecord.providerPeerId).Nodup ∧
      (∀ r ∈ rs, past.Built node r ∨ past.Admitted node r) ∧ Listed cs
  | _ => True

/-- What the `i`-th operation may return. -/
def Answers (i : Nat) : Op → Reply → Prop
  | .findProviders content, .records rs => past.Found node i content.toKey.toHex rs
  | .holdersOf content, .holders ps =>
    ∃ rs, past.Found node i content.toKey.toHex rs ∧ ps = rs.filterMap ProviderRecord.provider
  | .cachedProviders content, .records rs =>
    (rs.map ProviderRecord.providerPeerId).Nodup ∧
      ∀ r ∈ rs, past.Heard node content.toKey.toHex r
  | .handleRequestFrom _ _, .response res => past.Serves node res
  | .knownClosest _, .contacts cs => Listed cs
  | _, _ => True

end History

namespace Intact

/-- What a read of the authoritative store returns. -/
theorem get (h : Intact past node svc) {k : String} {now : Nat} :
    ∀ r ∈ svc.providers.get k now,
      r.contentKey = k ∧ (past.Built node r ∨ past.Admitted node r) := by
  intro r hr
  refine ⟨contentKey_of_get h.valid.providers hr, ?_⟩
  obtain ⟨x, e, he, rfl, -⟩ := ProviderStore.mem_get hr
  exact h.stored k x e he

theorem getCached (h : Intact past node svc) {k : String} {now : Nat} :
    ∀ r ∈ svc.discovered.get k now, past.Heard node k r := by
  intro r hr
  obtain ⟨x, e, he, rfl, -⟩ := ProviderStore.mem_get hr
  exact h.cached k x e he

theorem closest (h : Intact past node svc) (target : Key) :
    History.Listed (svc.routing.closest target) := by
  refine ⟨?_, fun c hc => h.table c (RoutingTable.mem_of_mem_closest hc)⟩
  have hnodup := (nodup_contacts_iff h.valid.routed.placed).mpr h.unique
  exact RoutingTable.nodup_closest h.valid.routed.key_isSome hnodup target

theorem announcedCollateral (h : Intact past node svc) {hex : String} {pointer : Option String}
    (hpointer : svc.providers.announcedCollateral hex = pointer) :
    pointer = none ∨ past.Announced hex pointer := by
  cases pointer with
  | none => exact Or.inl rfl
  | some coinId => exact Or.inr (h.announced hex _ (Option.join_eq_some_iff.mp hpointer))

end Intact

namespace Async

variable {β : Type} {Q : β → Prop}

/-! ### The windows -/

theorem keeps_reading {f : DhtService → Moment → β}
    (h : ∀ svc m, Intact past node svc → past.met i m → Q (f svc m)) :
    Keeps past node i Q (reading f) :=
  .access fun svc m hsvc hm => ⟨hsvc, h svc m hsvc hm⟩

theorem keeps_peek {f : DhtService → Moment → β} :
    Keeps past node i (fun _ => True) (reading f) :=
  keeps_reading fun _ _ _ _ => trivial

theorem keeps_nowSecs : Keeps past node i (fun now => ∃ m, past.met i m ∧ now = m.now) nowSecs :=
  keeps_reading fun _ m _ hm => ⟨m, hm, rfl⟩

theorem keeps_routing {f : RoutingTable → RoutingTable × β}
    (h : ∀ rt, Moves (fun _ => True) rt (f rt).1 ∧ Q (f rt).2) :
    Keeps past node i Q (routing f) :=
  .access fun svc _ hsvc _ => ⟨hsvc.rerouted (h svc.routing).1, (h svc.routing).2⟩

theorem keeps_providers {f : ProviderStore → Nat → ProviderStore × β} (ops : Nat → List StoreOp)
    (hf : ∀ ps now, (f ps now).1 = exec Store.step ps (ops now))
    (h : ∀ svc m, Intact past node svc → past.met i m →
      (∀ op ∈ ops m.now, Licit past node op) ∧ Q (f svc.providers m.now).2) :
    Keeps past node i Q (providers f) := by
  refine .access fun svc m hsvc hm => ⟨?_, (h svc m hsvc hm).2⟩
  simp only [hf]
  exact hsvc.restored _ (h svc m hsvc hm).1

theorem keeps_read {f : ProviderStore → Nat → β}
    (h : ∀ svc m, Intact past node svc → past.met i m → Q (f svc.providers m.now)) :
    Keeps past node i Q (providers fun ps now => (ps, f ps now)) :=
  keeps_providers (fun _ => []) (fun _ _ => rfl) fun svc m hsvc hm =>
    ⟨List.forall_mem_nil _, h svc m hsvc hm⟩

/-- One store operation, whatever comes of it. -/
theorem keeps_store {f : ProviderStore → Nat → ProviderStore × β} (op : Nat → StoreOp)
    (hf : ∀ ps now, (f ps now).1 = Store.step ps (op now)) (hop : ∀ now, Licit past node (op now)) :
    Keeps past node i (fun _ => True) (providers f) := by
  refine keeps_providers (fun now => [op now]) hf fun svc m _ _ => ⟨?_, trivial⟩
  intro op' hop'
  rw [List.mem_singleton.mp hop']
  exact hop m.now

theorem keeps_discovered {f : ProviderStore → Nat → ProviderStore × β}
    (ops : List StoreOp) (hf : ∀ ps now, (f ps now).1 = exec Store.step ps ops)
    (hops : ∀ r now, StoreOp.putAt r now ∉ ops)
    (h : ∀ svc m, Intact past node svc → past.met i m → Q (f svc.discovered m.now).2) :
    Keeps past node i Q (discovered f) := by
  refine .access fun svc m hsvc hm => ⟨?_, h svc m hsvc hm⟩
  simp only [hf]
  exact hsvc.recached _ fun r now hput => absurd hput (hops r now)

theorem keeps_rpc {peer : Contact} {request : DhtRequest}
    (h : Sends past node ⟨peer, request, []⟩) :
    Keeps past node i (fun _ => True) (rpc peer request) := by
  refine .send fun svc m _ _ _ => ⟨?_, trivial⟩
  intro x hx
  rw [List.mem_singleton.mp hx]
  exact h

/-- A contact is inserted as `Contact::new` or the absorbing loop makes it. -/
theorem keeps_insert {c d : Contact} (hc : c = d.capped) :
    Keeps past node i (fun _ => True) (insert c) := by
  subst hc
  have hroute : Keeps past node i (fun _ => True) (routing fun rt => rt.insert d.capped) :=
    keeps_routing fun rt => ⟨moves_capped rt trivial, trivial⟩
  refine hroute.bind fun outcome _ => ?_
  cases outcome with
  | panicked => trivial
  | inserted => trivial
  | full lru => trivial

theorem keeps_insert_new {peerId : PeerId} {addresses : List CandidateAddr} :
    Keeps past node i (fun _ => True) (insert (Contact.new peerId addresses)) :=
  keeps_insert (Contact.capped_new peerId addresses).symm

/-! ### Lookups and PUTs -/

omit [Deps] in
/-- What a lookup collects, an exchange about its key told of. -/
theorem mem_lookupExchanges {target : Key} {w : Walk} {a : Contact × Option QueryOutcome}
    (ha : a ∈ w.trace) {o : QueryOutcome} (ho : a.2 = some o) :
    ⟨a.1, .findProviders target.toHex, o.providers⟩ ∈ lookupExchanges target w :=
  List.mem_map.mpr ⟨a, ha, by rw [ho]; rfl⟩

/-- The answers go on the log with the calls. -/
theorem keeps_runLookup (target : Key) (seeds : List Contact) (stop : Bool) :
    Keeps past node i (fun result => ∀ r ∈ result.providers,
      r.contentKey = target.toHex ∧ past.Told i target.toHex r.normalized)
      (runLookup target seeds stop) := by
  refine .send fun svc m _ hm hlogged => ⟨?_, ?_⟩
  · intro x hx
    obtain ⟨a, -, rfl⟩ := List.mem_map.mp hx
    exact ⟨target, rfl⟩
  · intro r hr
    obtain ⟨a, ha, o, ho, htold⟩ := exists_outcome_of_mem_providers hr
    exact ⟨(mem_providers_runLookup hr).2, _, r, hlogged _ (mem_lookupExchanges ha ho), rfl,
      htold, rfl⟩

theorem keeps_absorbContacts (contacts : List Contact) :
    Keeps past node i (fun _ => True) (absorbContacts contacts) :=
  .access fun svc _ hsvc _ =>
    ⟨hsvc.rerouted (moves_absorbContacts (K := fun _ => True) svc fun _ _ => trivial), trivial⟩

theorem keeps_sendEach {record : ProviderRecord} (hrecord : past.Built node record)
    {peers : List Contact} (hpeers : ∀ p ∈ peers, p.peerId ≠ node.selfId) :
    Keeps past node i (fun _ => True) (sendEach peers record) := by
  induction peers with
  | nil => trivial
  | cons p rest ih =>
    obtain ⟨hp, hrest⟩ := List.forall_mem_cons.mp hpeers
    have hput : Sends past node ⟨p, .addProvider record, []⟩ := ⟨hrecord, hp⟩
    exact (keeps_rpc hput).bind fun _ _ => (ih hrest).bind fun _ _ => trivial

theorem keeps_putRecordAt {record : ProviderRecord} (hrecord : past.Built node record)
    (peers : List Contact) : Keeps past node i (fun _ => True) (putRecordAt peers record) := by
  have htargets : Keeps past node i (fun targets => ∀ p ∈ targets, p.peerId ≠ node.selfId)
      (reading fun svc _ => svc.putTargets peers) := by
    refine keeps_reading fun svc m hsvc _ => ?_
    intro p hp
    rw [← hsvc.selfId]
    simpa using (List.mem_filter.mp hp).2
  exact htargets.bind fun _ hpeers => keeps_sendEach hrecord hpeers

/-- No seed, no lookup; and what a lookup returns is absorbed. -/
theorem keeps_searchAndAbsorb (target : Key) :
    Keeps past node i (fun _ => True) (searchAndAbsorb target) := by
  refine keeps_peek.bind fun seeds _ => ?_
  refine .ite (fun _ => trivial) fun _ => ?_
  exact (keeps_runLookup target seeds false).bind fun result _ =>
    (keeps_absorbContacts result.closest).bind fun _ _ => trivial

theorem keeps_publish {record : ProviderRecord} (hrecord : past.Built node record) (target : Key) :
    Keeps past node i (fun _ => True) (publish target record) := by
  refine (keeps_searchAndAbsorb target).bind fun found _ => ?_
  cases found with
  | none => trivial
  | some result => exact keeps_putRecordAt hrecord result.closest

theorem keeps_cacheDiscovered {op : Op} {key : String} (hop : past.started i op)
    (hasks : op.asks = some key) {records : List ProviderRecord}
    (hrecords : ∀ r ∈ records, past.Told i key r) :
    Keeps past node i (fun _ => True) (cacheDiscovered key records) := by
  refine keeps_nowSecs.bind ?_
  rintro now ⟨m, hm, rfl⟩
  refine .access fun svc _ hsvc _ => ⟨?_, trivial⟩
  have hputs : svc.cacheDiscovered key records m.now = { svc with
      discovered := exec Store.step svc.discovered
        ((records.filterMap (svc.cacheEntry key m.now)).map fun entry => .putAt entry m.now) } := by
    simp only [exec, List.foldl_map]
    rfl
  rw [hputs]
  refine hsvc.recached _ ?_
  intro r now hput
  obtain ⟨entry, hentry, heq⟩ := List.mem_map.mp hput
  cases heq
  obtain ⟨q, hq, hcached⟩ := List.mem_filterMap.mp hentry
  rw [hsvc.profile] at hcached
  rw [(cacheEntry_spec hcached).1]
  exact ⟨i, op, q, m, hop, hasks, hrecords q hq, hm, hcached⟩

theorem keeps_admitVerifiedRecord {op : Op} {record : ProviderRecord} (hop : past.started i op)
    (hhands : op.Hands record) :
    Keeps past node i (fun _ => True) (admitVerifiedRecord record) := by
  refine keeps_nowSecs.bind ?_
  rintro now ⟨m, hm, rfl⟩
  have hclamped : Keeps past node i (fun r => past.Admitted node r)
      (reading fun svc _ => svc.clampedRecord record m.now) := by
    refine keeps_reading fun svc _ hsvc _ => ?_
    rw [hsvc.profile]
    exact ⟨i, op, record, m, hop, hhands, hm, rfl⟩
  refine hclamped.bind fun r hr => ?_
  have hput : Keeps past node i (fun _ => True) (providers fun ps _ => ps.putAt r m.now) :=
    keeps_store (fun _ => .putAt r m.now) (fun _ _ => rfl) fun _ => Or.inr hr
  refine hput.bind fun outcome _ => ?_
  cases outcome with
  | rejectedOverCapacity => trivial
  | accepted =>
    cases r.provider with
    | none => trivial
    | some pid => exact keeps_insert_new.bind fun _ _ => trivial

/-! ### The operations -/

theorem keeps_bootstrap (peers : List BootstrapPeer) :
    Keeps past node i (fun _ => True) (bootstrap peers) := by
  have hall : Keeps past node i (fun _ => True)
      (routing fun rt => insertAll rt (peers.map BootstrapPeer.toContact)) :=
    keeps_routing fun rt => ⟨moves_insertAll rt fun _ _ => trivial, trivial⟩
  refine hall.bind fun inserted _ => ?_
  cases inserted with
  | false => trivial
  | true =>
    refine keeps_peek.bind fun selfKey _ => ?_
    refine (keeps_runLookup selfKey _ false).bind fun result _ => ?_
    exact (keeps_absorbContacts result.closest).bind fun _ _ => keeps_peek

theorem keeps_findNode (peerId : PeerId) : Keeps past node i (fun _ => True) (findNode peerId) :=
  (keeps_searchAndAbsorb (Key.fromPeerId peerId)).bind fun _ _ => trivial

/-- The merge of two lists that are accounted for. -/
theorem found_merge {key : String} {localRecords extra : List ProviderRecord}
    (hlocal : past.Found node i key localRecords)
    (hextra : ∀ r ∈ extra, r.contentKey = key ∧ (past.Heard node key r ∨ past.Told i key r))
    (now : Nat) : past.Found node i key (mergeDedupByProvider localRecords extra now) := by
  refine ⟨nodup_dedupLive now ∅ (localRecords ++ extra), ?_⟩
  intro r hr
  rcases List.mem_append.mp (mem_dedupLive hr).1 with hr | hr
  · exact hlocal.2 r hr
  · obtain ⟨hkey, hheard | htold⟩ := hextra r hr
    · exact ⟨hkey, Or.inr (Or.inr (Or.inl hheard))⟩
    · exact ⟨hkey, Or.inr (Or.inr (Or.inr htold))⟩

/-- The local read and the merge may be windows apart. -/
theorem keeps_findProviders {op : Op} {content : ContentId} (hop : past.started i op)
    (hasks : op.asks = some content.toKey.toHex) :
    Keeps past node i (past.Found node i content.toKey.toHex) (findProviders content) := by
  unfold findProviders
  refine keeps_nowSecs.bind fun now _ => ?_
  have hlocal : Keeps past node i (past.Found node i content.toKey.toHex)
      (providers fun ps _ => (ps, ps.get content.toKey.toHex now)) := by
    refine keeps_read fun svc m hsvc _ => ?_
    refine ⟨ProviderStore.nodup_get hsvc.valid.providers _ now, fun r hr => ?_⟩
    obtain ⟨hkey, hbuilt | hadmitted⟩ := hsvc.get r hr
    · exact ⟨hkey, Or.inl hbuilt⟩
    · exact ⟨hkey, Or.inr (Or.inl hadmitted)⟩
  refine hlocal.bind fun localRecords hlocal => ?_
  have hcached : Keeps past node i (fun rs => ∀ r ∈ rs, past.Heard node content.toKey.toHex r)
      (discovered fun cache _ => (cache, cache.get content.toKey.toHex now)) :=
    keeps_discovered [] (fun _ _ => rfl) (fun _ _ => List.not_mem_nil)
      fun _ _ hsvc _ => hsvc.getCached
  refine hcached.bind fun cached hcached => ?_
  refine .ite (fun _ => ?_) fun _ => ?_
  · exact found_merge hlocal (fun r hr => ⟨(hcached r hr).foreign.1, Or.inl (hcached r hr)⟩) now
  refine keeps_peek.bind fun seeds _ => ?_
  refine .ite (fun _ => hlocal) fun _ => ?_
  refine (keeps_runLookup content.toKey seeds true).bind fun result hresult => ?_
  have hfound : ∀ r ∈ result.providers.map ProviderRecord.normalized,
      r.contentKey = content.toKey.toHex ∧ past.Told i content.toKey.toHex r := by
    intro r hr
    obtain ⟨q, hq, rfl⟩ := List.mem_map.mp hr
    exact hresult q hq
  refine (keeps_absorbContacts result.closest).bind fun _ _ => ?_
  refine (keeps_cacheDiscovered hop hasks fun r hr => (hfound r hr).2).bind fun _ _ => ?_
  refine keeps_nowSecs.bind fun later _ => ?_
  exact found_merge hlocal (fun r hr => ⟨(hfound r hr).1, Or.inr (hfound r hr).2⟩) later

theorem keeps_holdersOf {op : Op} {content : ContentId} (hop : past.started i op)
    (hasks : op.asks = some content.toKey.toHex) :
    Keeps past node i (fun ps => ∃ rs, past.Found node i content.toKey.toHex rs ∧
      ps = rs.filterMap ProviderRecord.provider) (holdersOf content) :=
  (keeps_findProviders hop hasks).bind fun rs hrs => ⟨rs, hrs, rfl⟩

/-- The record is put and its key remembered under one lock. -/
theorem keeps_announce {content : ContentId} {coin : Option Bytes32}
    (hop : past.started i (.announceProviderWithCollateral content coin)) :
    Keeps past node i (fun _ => True) (announceProviderWithCollateral content coin) := by
  have hannounced : past.Announced content.toKey.toHex (coin.map toHex64) :=
    ⟨i, content, coin, hop, rfl, rfl⟩
  have hrecord : Keeps past node i
      (fun r => past.Built node r ∧ r.unverifiedMirrorCoinId = coin.map toHex64)
      (reading fun svc m => svc.announcedRecord content coin m.now) := by
    refine keeps_reading fun svc m hsvc hm => ?_
    rw [hsvc.profile, NodeProfile.announcedRecord_eq]
    exact ⟨hannounced.built past node (Or.inr rfl) (parseKey_toHex _) hop trivial hm, rfl⟩
  refine hrecord.bind fun r hr => ?_
  have hstore : Keeps past node i (fun _ => True) (providers fun ps now =>
      ((ps.putAt r now).1.markAnnouncedWithCollateral content.toKey.toHex
        r.unverifiedMirrorCoinId, ())) := by
    refine keeps_providers (fun now => [.putAt r now,
      .markAnnouncedWithCollateral content.toKey.toHex r.unverifiedMirrorCoinId])
      (fun _ _ => rfl) fun svc m _ _ => ⟨?_, trivial⟩
    intro op hop
    rcases List.mem_pair.mp hop with rfl | rfl
    · exact Or.inl hr.1
    · rw [Licit, hr.2]
      exact hannounced
  exact hstore.bind fun _ _ => keeps_publish hr.1 content.toKey

theorem keeps_retractOwnProvider (content : ContentId) :
    Keeps past node i (fun _ => True) (retractOwnProvider content) := by
  refine .access fun svc _ hsvc _ => ⟨?_, trivial⟩
  have hremoved : (svc.retractOwnProvider content).1 = { svc with
      providers := exec Store.step svc.providers
        [.remove content.toKey.toHex svc.selfId, .unmarkAnnounced content.toKey.toHex] } := rfl
  rw [hremoved]
  refine hsvc.restored _ ?_
  intro op hop
  rcases List.mem_pair.mp hop with rfl | rfl <;> trivial

/-! ### Maintenance -/

/-- The pointer is read after the record is built; a withdrawal in between
leaves none. -/
theorem keeps_republishKey (hop : past.started i .republish) {hex : String}
    (hannounced : ∃ pointer, past.Announced hex pointer) :
    Keeps past node i (fun _ => True) (republishKey hex) := by
  unfold republishKey
  cases hparse : parseKey hex with
  | none => trivial
  | some target =>
    have hrecord : Keeps past node i
        (fun r => ∃ m, past.met i m ∧ r = node.buildLocalRecord target m.now)
        (reading fun svc m => svc.buildLocalRecord target m.now) := by
      refine keeps_reading fun svc m hsvc hm => ?_
      rw [hsvc.profile]
      exact ⟨m, hm, rfl⟩
    refine hrecord.bind ?_
    rintro r ⟨m, hm, rfl⟩
    have hpointer : Keeps past node i (fun pointer => pointer = none ∨ past.Announced hex pointer)
        (providers fun ps _ => (ps, ps.announcedCollateral hex)) :=
      keeps_read fun _ _ hsvc _ => hsvc.announcedCollateral rfl
    refine hpointer.bind fun pointer hpointer => ?_
    have hbuilt : past.Built node (node.republishedRecord pointer target m.now) := by
      rcases hpointer with rfl | hpointer
      · obtain ⟨announced, hannounced⟩ := hannounced
        exact hannounced.built past node (Or.inl rfl) hparse hop trivial hm
      · exact hpointer.built past node (Or.inr rfl) hparse hop trivial hm
    have hput : Keeps past node i (fun _ => True) (providers fun ps now =>
        ((ps.putAt (node.republishedRecord pointer target m.now) now).1, ())) :=
      keeps_store (fun now => .putAt (node.republishedRecord pointer target m.now) now)
        (fun _ _ => rfl) fun _ => Or.inl hbuilt
    exact hput.bind fun _ _ => (keeps_publish hbuilt target).bind fun _ _ => trivial

theorem keeps_republishAll (hop : past.started i .republish) {keys : List String}
    (hkeys : ∀ hex ∈ keys, ∃ pointer, past.Announced hex pointer) :
    Keeps past node i (fun _ => True) (republishAll keys) := by
  induction keys with
  | nil => trivial
  | cons hex rest ih =>
    obtain ⟨hhex, hrest⟩ := List.forall_mem_cons.mp hkeys
    exact (keeps_republishKey hop hhex).bind fun _ _ => ih hrest

theorem keeps_republish (hop : past.started i .republish) :
    Keeps past node i (fun _ => True) republish := by
  have hkeys : Keeps past node i (fun keys => ∀ hex ∈ keys, ∃ pointer, past.Announced hex pointer)
      (reading fun svc m => m.keyOrder svc.providers.localAnnouncements) := by
    refine keeps_reading fun svc m hsvc _ => ?_
    intro hex hhex
    obtain ⟨pointer, hpointer⟩ := FMap.mem_keys_iff.mp ((m.keyOrder_perm _).mem_iff.mp hhex)
    exact ⟨pointer, hsvc.announced hex pointer hpointer⟩
  exact hkeys.bind fun keys hkeys => (keeps_republishAll hop hkeys).bind fun _ _ => trivial

theorem keeps_refreshAll (indices : List (Fin 256)) :
    Keeps past node i (fun _ => True) (refreshAll indices) := by
  induction indices with
  | nil => trivial
  | cons idx rest ih =>
    exact keeps_peek.bind fun target _ => (keeps_searchAndAbsorb target).bind fun _ _ => ih

theorem keeps_refreshBuckets : Keeps past node i (fun _ => True) refreshBuckets :=
  keeps_peek.bind fun indices _ => (keeps_refreshAll indices).bind fun _ _ => trivial

theorem keeps_gc : Keeps past node i (fun _ => True) gc := by
  refine keeps_nowSecs.bind fun now _ => ?_
  have hswept : Keeps past node i (fun _ => True) (providers fun ps _ => ps.gc now) :=
    keeps_store (fun _ => .gc now) (fun _ _ => rfl) fun _ => trivial
  have hcache : Keeps past node i (fun _ => True) (discovered fun cache _ => cache.gc now) :=
    keeps_discovered [.gc now] (fun _ _ => rfl) (fun _ _ => by simp) fun _ _ _ _ => trivial
  exact hswept.bind fun _ _ => hcache.bind fun _ _ => trivial

theorem keeps_remove (peerIdHex : String) :
    Keeps past node i (fun _ => True) (routing fun rt => rt.remove peerIdHex) :=
  keeps_routing fun rt => ⟨moves_remove rt peerIdHex, trivial⟩

theorem keeps_ping (peer : Contact) : Keeps past node i (fun _ => True) (ping peer) := by
  refine keeps_peek.bind fun nonce _ => ?_
  have hanswer : Keeps past node i (fun _ => True) (rpc peer (.ping nonce)) := keeps_rpc trivial
  refine hanswer.bind fun response _ => ?_
  exact .ite (fun _ => trivial) fun _ => (keeps_remove peer.peerId).bind fun _ _ => trivial

/-! ### Serving side -/

theorem keeps_learnCaller (caller : Option Contact) :
    Keeps past node i (fun _ => True) (learnCaller caller) := by
  cases caller with
  | none => trivial
  | some c =>
    refine keeps_peek.bind fun selfId _ => ?_
    exact .ite (fun _ => trivial) fun _ => keeps_insert rfl

theorem keeps_closest (target : Key) :
    Keeps past node i History.Listed (reading fun svc _ => svc.routing.closest target) :=
  keeps_reading fun _ _ hsvc _ => hsvc.closest target

theorem keeps_answer {caller : Option Contact} {request : DhtRequest}
    (hop : past.started i (.handleRequestFrom caller request)) :
    Keeps past node i (past.Serves node) (answer (caller.map Contact.peerId) request) := by
  cases request with
  | ping nonce => trivial
  | findNode target =>
    simp only [answer]
    cases parseKey target with
    | none => trivial
    | some key => exact (keeps_closest key).bind fun nodes hnodes => hnodes
  | findProviders contentKey =>
    simp only [answer]
    cases parseKey contentKey with
    | none => trivial
    | some key =>
      refine keeps_nowSecs.bind fun now _ => ?_
      have hread : Keeps past node i (fun rs => (rs.map ProviderRecord.providerPeerId).Nodup ∧
            ∀ r ∈ rs, past.Built node r ∨ past.Admitted node r)
          (providers fun ps _ => (ps, ps.get key.toHex now)) :=
        keeps_read fun _ _ hsvc _ => ⟨ProviderStore.nodup_get hsvc.valid.providers _ now,
          fun r hr => (hsvc.get r hr).2⟩
      exact hread.bind fun rs hrs => (keeps_closest key).bind fun cs hcs => ⟨hrs.1, hrs.2, hcs⟩
  | addProvider record =>
    simp only [answer]
    refine .ite (fun _ => trivial) fun hnamed => ?_
    have hhands : (Op.handleRequestFrom caller (.addProvider record)).Hands record :=
      ⟨rfl, Bool.not_eq_true _ ▸ hnamed⟩
    refine (keeps_admitVerifiedRecord hop hhands).bind fun outcome _ => ?_
    cases outcome with
    | accepted => trivial
    | rejectedOverCapacity => trivial

theorem keeps_handleRequestFrom {caller : Option Contact} {request : DhtRequest}
    (hop : past.started i (.handleRequestFrom caller request)) :
    Keeps past node i (past.Serves node) (handleRequestFrom caller request) :=
  (keeps_learnCaller caller).bind fun _ _ => keeps_answer hop

end Async

/-- Every operation keeps the state intact, in each of its windows. -/
theorem Op.keeps {op : Op} (hop : past.started i op) :
    Keeps past node i (past.Answers node i op) op.routine := by
  cases op with
  | bootstrap peers => exact (Async.keeps_bootstrap peers).map fun _ _ => trivial
  | addPeer peerId addresses => exact Async.keeps_insert_new.bind fun _ _ => trivial
  | removePeer peerIdHex => exact (Async.keeps_remove peerIdHex).map fun _ _ => trivial
  | findNode peerId =>
    refine (Async.keeps_findNode peerId).bind fun found _ => ?_
    cases found <;> trivial
  | findProviders content => exact (Async.keeps_findProviders hop rfl).map fun _ h => h
  | cachedProviders content =>
    have hread : Keeps past node i (fun rs => (rs.map ProviderRecord.providerPeerId).Nodup ∧
          ∀ r ∈ rs, past.Heard node content.toKey.toHex r)
        (Async.discovered fun cache now => (cache, cache.get content.toKey.toHex now)) :=
      Async.keeps_discovered [] (fun _ _ => rfl) (fun _ _ => List.not_mem_nil)
        fun _ m hsvc _ => ⟨ProviderStore.nodup_get hsvc.valid.discovered _ m.now, hsvc.getCached⟩
    exact hread.map fun _ h => h
  | forgetDiscovered content =>
    have hdropped : Keeps past node i (fun _ => True)
        (Async.discovered fun cache _ => cache.removeKey content.toKey.toHex) :=
      Async.keeps_discovered [.removeKey content.toKey.toHex] (fun _ _ => rfl)
        (fun _ _ => by simp) fun _ _ _ _ => trivial
    exact hdropped.map fun _ _ => trivial
  | announceProviderWithCollateral content coin =>
    exact (Async.keeps_announce hop).map fun _ _ => trivial
  | withdrawProvider content =>
    have hunmarked : Keeps past node i (fun _ => True)
        (Async.providers fun ps _ => ps.unmarkAnnounced content.toKey.toHex) :=
      Async.keeps_store (fun _ => .unmarkAnnounced content.toKey.toHex) (fun _ _ => rfl)
        fun _ => trivial
    exact hunmarked.map fun _ _ => trivial
  | ingestVerifiedProvider record =>
    have hhands : (Op.ingestVerifiedProvider record).Hands record := rfl
    exact (Async.keeps_admitVerifiedRecord hop hhands).map fun _ _ => trivial
  | removeProviderRecord contentKey providerPeerId =>
    have hremoved : Keeps past node i (fun _ => True)
        (Async.providers fun ps _ => ps.remove contentKey providerPeerId) :=
      Async.keeps_store (fun _ => .remove contentKey providerPeerId) (fun _ _ => rfl)
        fun _ => trivial
    exact hremoved.map fun _ _ => trivial
  | providerSnapshot maxKeys =>
    have hread : Keeps past node i (fun _ => True)
        (Async.providers fun ps now => (ps, ps.snapshot now maxKeys)) :=
      Async.keeps_read fun _ _ _ _ => trivial
    exact hread.map fun _ _ => trivial
  | retractOwnProvider content =>
    exact (Async.keeps_retractOwnProvider content).map fun _ _ => trivial
  | holdersOf content => exact (Async.keeps_holdersOf hop rfl).map fun _ h => h
  | republish => exact (Async.keeps_republish hop).map fun _ _ => trivial
  | refreshBuckets => exact Async.keeps_refreshBuckets.map fun _ _ => trivial
  | gc => exact Async.keeps_gc.map fun _ _ => trivial
  | ping peer => exact (Async.keeps_ping peer).map fun _ _ => trivial
  | handleRequestFrom caller request =>
    exact (Async.keeps_handleRequestFrom hop).map fun _ h => h
  | knownClosest target => exact (Async.keeps_closest target).map fun _ h => h
  | routingLen => exact Async.keeps_peek.map fun _ _ => trivial

end Routines

/-! ## §4 Every schedule -/

/-- What can happen to a node: an operation is started, or one that is
running gets to run a window. One that is never advanced again was
dropped. -/
inductive Happening where
  | start (op : Op)
  | advance (i : Nat) (m : Moment)

/-- A routine carries its operation, so that a result says what it is of. -/
def Happening.turn : Happening → Pool.Turn DhtService Moment Exchange (Op × Reply)
  | .start op => .start ((fun reply => (op, reply)) <$> op.routine)
  | .advance i m => .advance i m

omit [Deps] in
/-- The operation that is started, if one is. -/
def Happening.opens : Happening → Option Op
  | .start op => some op
  | .advance _ _ => none

/-- A node over a schedule, and what its operations came to. -/
def scheduled (svc : DhtService) (schedule : List Happening) :
    Pool DhtService Moment Exchange (Op × Reply) :=
  exec Pool.step (.idle svc) (schedule.map Happening.turn)

/-- All that a schedule starts and gives, and what its operations sent. -/
def History.of (svc : DhtService) (schedule : List Happening) : History where
  started i op := (schedule.filterMap Happening.opens)[i]? = some op
  met i m := .advance i m ∈ schedule
  exchanged i x := (i, x) ∈ (scheduled svc schedule).sent

section Schedules

variable (svc : DhtService)

theorem scheduled_append (before after : List Happening) :
    scheduled svc (before ++ after) =
      exec Pool.step (scheduled svc before) (after.map Happening.turn) := by
  rw [scheduled, List.map_append, exec_append]
  rfl

/-- The routines are numbered in the order in which they are started. -/
theorem length_running (schedule : List Happening) :
    (scheduled svc schedule).running.length = (schedule.filterMap Happening.opens).length := by
  induction schedule using List.reverseRecOn with
  | nil => rfl
  | append_singleton schedule x ih =>
    rw [scheduled_append, List.filterMap_append, List.length_append, ← ih]
    cases x with
    | start op => exact List.length_append
    | advance i m => exact Pool.length_running_advance _ i m

/-- Every turn starts an operation under its own number, or gives one what
the schedule gives it. -/
theorem allowed_scheduled (node : NodeProfile) (schedule : List Happening) :
    let past := History.of svc schedule
    EachStep Pool.step (Pool.Allowed (Intact past node) (fun i _ m => past.met i m)
      past.exchanged (fun _ => Sends past node)
      fun i a => past.started i a.1 ∧ past.Answers node i a.1 a.2)
      (.idle svc) (schedule.map Happening.turn) := by
  intro past
  refine eachStep_of_split fun before turn after hsplit => ?_
  obtain ⟨earlier, rest, hschedule, rfl, hrest⟩ := List.map_eq_append_iff.mp hsplit
  obtain ⟨x, later, rfl, rfl, rfl⟩ := List.map_eq_cons_iff.mp hrest
  cases x with
  | start op =>
    have hstarted : past.started (scheduled svc earlier).running.length op := by
      show (schedule.filterMap Happening.opens)[(scheduled svc earlier).running.length]? = some op
      rw [length_running, hschedule]
      simp [Happening.opens]
    exact (Op.keeps hstarted).map fun _ h => ⟨hstarted, h⟩
  | advance i m =>
    refine ⟨?_, fun x hx => ?_⟩
    · show Happening.advance i m ∈ schedule
      rw [hschedule]
      exact List.mem_append_right _ List.mem_cons_self
    · show x ∈ (scheduled svc schedule).sent
      rw [hschedule, scheduled_append]
      exact Pool.sent_exec_subset _ (later.map Happening.turn) hx

end Schedules

/-- **Intact under every schedule.** Start any operations of a new node at
any times, let their windows run in any order, with any clocks, any
transport and any of them dropped anywhere: the state is intact. Every
record is one the node built for something it announced, was handed by a
caller who may, or was told of, in answer to a call it made, when it looked
for that key. The node sends others its own records only, strangers are
served nothing it was only told of, and what every finished operation
returned is accounted for. -/
theorem every_schedule_intact (localId : PeerId) (addresses : List CandidateAddr)
    (config : DhtConfig) (schedule : List Happening) :
    let svc := DhtService.new localId addresses config
    let past := History.of svc schedule
    let node : NodeProfile := ⟨localId, addresses, config⟩
    let p := scheduled svc schedule
    Intact past node p.state ∧ (∀ x ∈ p.sent, Sends past node x.2) ∧
      ∀ i op reply, p.running[i]? = some (.done (op, reply)) →
        past.started i op ∧ past.Answers node i op reply := by
  intro svc past node p
  have hguarded := (Pool.always_guarded (Pool.guarded_idle (intact_new _ _ _))
    (allowed_scheduled svc node schedule)).last
  exact ⟨hguarded.state, hguarded.sent, fun i op reply hdone => hguarded.returned hdone⟩

/-! ### One operation after the other -/

omit [Deps] in
/-- Operations one after the other: each is started and then given windows
until the next one is started. -/
def oneByOne (blocks : List (Op × List Moment)) : List Happening :=
  blocks.zipIdx.flatMap fun x => .start x.1.1 :: x.1.2.map (.advance x.2)

omit [Deps] in
theorem oneByOne_concat (blocks : List (Op × List Moment)) (op : Op) (ms : List Moment) :
    oneByOne (blocks ++ [(op, ms)]) =
      (oneByOne blocks ++ [.start op]) ++ ms.map (.advance blocks.length) := by
  simp [oneByOne, List.zipIdx_append]

/-- The schedule takes the node to this state, its operations having come
to these outputs. -/
structure Reaches (svc : DhtService) (schedule : List Happening) (s : DhtService)
    (outputs : List (Op × Output)) : Prop where
  state : (scheduled svc schedule).state = s
  running : (scheduled svc schedule).running =
    outputs.map fun o => Pool.ended (o.2.reply.returned.map fun reply => (o.1, reply))
  sent : (scheduled svc schedule).sent.map (fun x => x.2.sent) = outputs.flatMap fun o => o.2.sent

/-- One more operation, in windows of its own. -/
theorem reaches_step {svc s : DhtService} {schedule : List Happening}
    {outputs : List (Op × Output)} (h : Reaches svc schedule s outputs) (input : Input)
    (world : World) :
    ∃ ms : List Moment, (∀ m ∈ ms, input.Gives world m) ∧
      Reaches svc ((schedule ++ [.start input.op]) ++ ms.map (.advance outputs.length))
        (step s input world).1 (outputs ++ [(input.op, (step s input world).2)]) := by
  have hstart : scheduled svc (schedule ++ [.start input.op]) =
      { scheduled svc schedule with
        running := (scheduled svc schedule).running ++
          [(fun reply => (input.op, reply)) <$> input.op.routine] } := by
    rw [scheduled_append]
    rfl
  have halone := (Op.routine_alone s input world).map fun reply => (input.op, reply)
  obtain ⟨ms, hms, hstate, hrunning, hsent⟩ := Pool.exists_schedule halone
    (p := scheduled svc (schedule ++ [.start input.op])) (i := outputs.length)
    (by rw [hstart, ← h.state]) (by simp [hstart, h.running])
  have hturns : (ms.map (Happening.advance outputs.length)).map Happening.turn =
      ms.map (.advance outputs.length) := List.map_map
  refine ⟨ms, hms, ?_, ?_, ?_⟩
  · rw [scheduled_append, hturns, hstate]
  · rw [scheduled_append, hturns, hrunning, hstart, h.running]
    simp
  · rw [scheduled_append, hturns, hsent, hstart, h.sent]
    simp

/-- **Every run is a schedule.** The machine that runs operations whole is
the node under a schedule that never lets two of them overlap: each is
started, and given windows of its own only, with the clock, the swarm and
the rest of what the run gives it, until it comes to its reply, or to its
panic. The states and the messages are the same. -/
theorem every_run_scheduled (svc : DhtService) (run : List (Input × World)) :
    ∃ blocks : List (Op × List Moment),
      List.Forall₂ (fun x b => b.1 = x.1.op ∧ ∀ m ∈ b.2, x.1.Gives x.2 m) run blocks ∧
      Reaches svc (oneByOne blocks) (exec stepState svc run)
        (logged stepState (fun svc x => some (x.1.op, (step svc x.1 x.2).2)) svc run) := by
  induction run using List.reverseRecOn with
  | nil => exact ⟨[], .nil, rfl, rfl, rfl⟩
  | append_singleton run x ih =>
    obtain ⟨blocks, hblocks, hreaches⟩ := ih
    obtain ⟨ms, hms, hnext⟩ := reaches_step hreaches x.1 x.2
    rw [length_logged, hblocks.length_eq, ← oneByOne_concat] at hnext
    refine ⟨blocks ++ [(x.1.op, ms)], ?_, ?_⟩
    · exact List.rel_append hblocks (.cons ⟨rfl, hms⟩ .nil)
    · rw [exec_append, logged_append]
      exact hnext

end DigDht.Service
