/-
DigDht.Service.RoutineTheorems — the whole operations among the
interleaved ones.

An operation of `DigDht.Service.Machine` is its routine run alone
(`Op.routine_alone`): the state it leaves, what it sends, what it returns
and whether it panics are those of one schedule. So whatever is proved of
every schedule holds of the machine as well. Each window is given what
the run gives the operation (`Input.Gives`): a reading of its clock, one
of its swarms and of its random values, its nonce and its order of keys.
-/
import DigDht.Routing.RecencyTheorems
import DigDht.Service.Routines
import DigDht.Service.ServiceTheorems

namespace DigDht.Service

open Keyspace Record Routing Lookup Store Wire Content Routine

variable [Deps]

/-- An insert that panics leaves the table as it is. -/
theorem insert_of_panicked {t : RoutingTable} {c : Contact} (h : (t.insert c).2 = .panicked) :
    (t.insert c).1 = t := by
  unfold RoutingTable.insert at h ⊢
  cases hidx : t.bucketOf c with
  | none => rfl
  | some i =>
    simp only [hidx] at h ⊢
    have hsame : ((t.bucket i).offer c).1 = t.bucket i := by
      unfold KBucket.offer at h ⊢
      grind
    rw [hsame, t.setBucket_bucket]

/-- What an operation returns; `none` is a panic. -/
def Reply.returned : Reply → Option Reply
  | .panicked => none
  | reply => some reply

/-- What the run gives a window of the operation: the `i`-th reading of its
clock, and in its `j`-th round the swarm after the calls `asked`. -/
def Input.moment (input : Input) (world : World) (i j : Nat) (asked : List Contact) : Moment where
  now := input.clock i
  swarm := { world.swarms j with rpc := fun later => (world.swarms j).rpc (asked ++ later) }
  random := world.random j
  nonce := world.nonce
  keyOrder := input.keyOrder
  keyOrder_perm := input.keyOrder_perm

/-- The window is one of the operation in this world. -/
def Input.Gives (input : Input) (world : World) (m : Moment) : Prop :=
  ∃ i j asked, m = input.moment world i j asked

/-- The routine runs alone, in windows of the operation in this world. -/
abbrev Async.Solo {β : Type} (t : Async β) (input : Input) (world : World)
    (svc svc' : DhtService) (sent : List Sent) (a : Option β) : Prop :=
  t.Alone Exchange.sent (input.Gives world) svc svc' sent a

namespace Async

variable (input : Input) (world : World)

/-! ## §1 The windows -/

section Windows

variable {β : Type} (svc : DhtService)

omit [Deps] in
theorem alone_access (i j : Nat) (asked : List Contact)
    (f : DhtService → Moment → DhtService × β) :
    Solo (Routine.access f) input world svc (f svc (input.moment world i j asked)).1 []
      (some (f svc (input.moment world i j asked)).2) :=
  .access f svc _ ⟨i, j, asked, rfl⟩

omit [Deps] in
theorem alone_reading (i j : Nat) (f : DhtService → Moment → β) :
    (reading f).Solo input world svc svc [] (some (f svc (input.moment world i j []))) :=
  alone_access input world svc i j [] _

omit [Deps] in
/-- Where nothing of the environment is read. -/
theorem alone_peek (f : DhtService → β) :
    (reading fun svc _ => f svc).Solo input world svc svc [] (some (f svc)) :=
  alone_reading input world svc 0 0 _

omit [Deps] in
theorem alone_nowSecs (i : Nat) :
    nowSecs.Solo input world svc svc [] (some (input.clock i)) :=
  alone_reading input world svc i 0 _

omit [Deps] in
theorem alone_routing (f : RoutingTable → RoutingTable × β) :
    (routing f).Solo input world svc { svc with routing := (f svc.routing).1 } []
      (some (f svc.routing).2) :=
  alone_access input world svc 0 0 [] _

omit [Deps] in
theorem alone_providers (i : Nat) (f : ProviderStore → Nat → ProviderStore × β) :
    (providers f).Solo input world svc
      { svc with providers := (f svc.providers (input.clock i)).1 } []
      (some (f svc.providers (input.clock i)).2) :=
  alone_access input world svc i 0 [] _

omit [Deps] in
theorem alone_discovered (i : Nat) (f : ProviderStore → Nat → ProviderStore × β) :
    (discovered f).Solo input world svc
      { svc with discovered := (f svc.discovered (input.clock i)).1 } []
      (some (f svc.discovered (input.clock i)).2) :=
  alone_access input world svc i 0 [] _

/-- An insert returns, or panics and leaves the table as it was. -/
theorem alone_insert (c : Contact) :
    (insert c).Solo input world svc { svc with routing := (svc.routing.insert c).1 } []
      (if (svc.routing.insert c).2 = .panicked then none else some ()) := by
  refine .bind_quiet (alone_routing input world svc _) ?_
  cases (svc.routing.insert c).2 with
  | panicked => exact .halted _
  | inserted => exact .pure () _
  | full lru => exact .pure () _

end Windows

/-! ## §2 Lookups and PUTs -/

section Networked

variable (svc : DhtService) (j : Nat)

omit [Deps] in
theorem map_sent_lookupExchanges (target : Key) (w : Walk) :
    (lookupExchanges target w).map Exchange.sent = DhtService.lookupRequests target w := by
  simp [lookupExchanges, DhtService.lookupRequests, Exchange.sent, Function.comp_def]

omit [Deps] in
/-- One RPC, after the calls `asked`. -/
theorem alone_rpc (asked : List Contact) (peer : Contact) (request : DhtRequest) :
    (rpc peer request).Solo input world svc svc [(peer, request)]
      (some ((world.swarms j).rpc asked peer request)) := by
  have h : (rpc peer request).Solo input world svc svc [(peer, request)]
      (some ((world.swarms j).rpc (asked ++ []) peer request)) :=
    .send _ svc (input.moment world 0 j asked) ⟨0, j, asked, rfl⟩
  rwa [List.append_nil] at h

theorem alone_runLookup (target : Key) (seeds : List Contact) (stop : Bool) :
    (runLookup target seeds stop).Solo input world svc svc
      (DhtService.lookupRequests target (svc.runLookup (world.swarms j) target seeds stop).1)
      (some ((svc.runLookup (world.swarms j) target seeds stop).1.result svc.config.k)) := by
  rw [← map_sent_lookupExchanges]
  exact .send _ svc (input.moment world 0 j []) ⟨0, j, [], rfl⟩

theorem alone_absorbContacts (contacts : List Contact) :
    (absorbContacts contacts).Solo input world svc (svc.absorbContacts contacts) [] (some ()) :=
  alone_access input world svc 0 0 [] _

theorem alone_searchAndAbsorb (target : Key) :
    (searchAndAbsorb target).Solo input world svc
      (svc.searchAndAbsorb (world.swarms j) target).1
      (((svc.searchAndAbsorb (world.swarms j) target).2.map
        (DhtService.lookupRequests target)).getD [])
      (some ((svc.searchAndAbsorb (world.swarms j) target).2.map
        fun w => w.result svc.config.k)) := by
  unfold searchAndAbsorb DhtService.searchAndAbsorb
  refine .bind_quiet (alone_peek input world svc _) ?_
  by_cases hseeds : svc.seedContacts target = []
  · simp only [hseeds, if_true]
    exact .pure _ _
  · simp only [if_neg hseeds]
    have hfound := alone_runLookup input world svc j target
      (svc.seedContacts target) false
    have habsorbed := alone_absorbContacts input world svc
      ((svc.runLookup (world.swarms j) target (svc.seedContacts target) false).1.result
        svc.config.k).closest
    exact hfound.bind_silent (.bind_quiet habsorbed (.pure _ _))

omit [Deps] in
theorem alone_sendEach (asked peers : List Contact) (record : ProviderRecord) :
    (sendEach peers record).Solo input world svc svc
      (peers.map fun p => (p, .addProvider record))
      (some (peers.countP fun p =>
        (world.swarms j).rpc asked p (.addProvider record) = some .addProviderOk)) := by
  induction peers with
  | nil => exact .pure 0 svc
  | cons p rest ih =>
    -- The answer to a PUT may depend on the lookup before it.
    have hanswer := alone_rpc input world svc j asked p
      (.addProvider record)
    have h := hanswer.bind (k := fun response => do
      let accepted ← sendEach rest record
      pure ((if response = some .addProviderOk then 1 else 0) + accepted)) (ih.map fun accepted =>
      (if (world.swarms j).rpc asked p (.addProvider record) = some .addProviderOk
        then 1 else 0) + accepted)
    rw [List.countP_cons, add_comm]
    simp only [decide_eq_true_eq]
    exact h

theorem alone_putRecordAt (asked peers : List Contact) (record : ProviderRecord) :
    (putRecordAt peers record).Solo input world svc svc
      (svc.putRecordAt (world.swarms j) asked peers record).2
      (some (svc.putRecordAt (world.swarms j) asked peers record).1) :=
  .bind_quiet (alone_peek input world svc _) (alone_sendEach input world svc j asked _ record)

theorem config_searchAndAbsorb (swarm : Swarm) (target : Key) :
    (svc.searchAndAbsorb swarm target).1.config = svc.config := by
  obtain ⟨routing, heq⟩ := svc.rerouted_searchAndAbsorb swarm target
  rw [heq]

theorem alone_publish (target : Key) (record : ProviderRecord) :
    (publish target record).Solo input world svc
      (svc.publish (world.swarms j) target record).1
      (svc.publish (world.swarms j) target record).2.2
      (some (svc.publish (world.swarms j) target record).2.1) := by
  have hfound := alone_searchAndAbsorb input world svc j target
  have hconfig := config_searchAndAbsorb svc (world.swarms j) target
  unfold publish DhtService.publish
  cases hsearch : svc.searchAndAbsorb (world.swarms j) target with
  | mk svc' w =>
    rw [hsearch] at hfound hconfig
    cases w with
    | none => exact .bind_quiet hfound (.pure _ _)
    | some w =>
      have hsent := alone_putRecordAt input world svc' j
        (w.trace.map Prod.fst) (w.result svc'.config.k).closest record
      rw [← hconfig] at hfound
      exact hfound.bind hsent

end Networked

/-! ## §3 The operations -/

section Operations

variable (svc : DhtService)

/-- An admission returns its outcome, or panics in the insert. -/
theorem alone_admitVerifiedRecord (i : Nat) (record : ProviderRecord) :
    (admitVerifiedRecord record).Solo input world svc
      (svc.admitVerifiedRecord record (input.clock i)).1 []
      (svc.admitVerifiedRecord record (input.clock i)).2 := by
  unfold admitVerifiedRecord DhtService.admitVerifiedRecord
  refine .bind_quiet (alone_nowSecs input world svc i) (.bind_quiet (alone_peek input world svc _)
    (.bind_quiet (alone_providers input world svc i _) ?_))
  simp only
  cases svc.providers.putAt (svc.clampedRecord record (input.clock i)) (input.clock i) with
  | mk stored outcome =>
    cases outcome with
    | rejectedOverCapacity => exact .pure _ _
    | accepted =>
      cases (svc.clampedRecord record (input.clock i)).provider with
      | none => exact .pure _ _
      | some pid =>
        have hinsert := alone_insert input world { svc with providers := stored }
          (Contact.new pid (svc.clampedRecord record (input.clock i)).addresses)
        simp only
        cases hnew : svc.routing.insert
            (Contact.new pid (svc.clampedRecord record (input.clock i)).addresses) with
        | mk routing outcome =>
          simp only [hnew] at hinsert
          cases outcome with
          | panicked => exact hinsert.bind_none
          | inserted => exact .bind_quiet hinsert (.pure _ _)
          | full lru => exact .bind_quiet hinsert (.pure _ _)

theorem alone_cacheDiscovered (i : Nat) (contentKey : String) (records : List ProviderRecord) :
    (cacheDiscovered contentKey records).Solo input world svc
      (svc.cacheDiscovered contentKey records (input.clock i)) [] (some ()) := by
  unfold cacheDiscovered
  exact .bind_quiet (alone_nowSecs input world svc i) (alone_access input world svc i 0 [] _)

theorem alone_findProviders (j : Nat) (content : ContentId) :
    (findProviders content).Solo input world svc
      (svc.findProviders input.clock (world.swarms j) content).1
      (svc.findProviders input.clock (world.swarms j) content).2.2
      (some (svc.findProviders input.clock (world.swarms j) content).2.1) := by
  unfold findProviders DhtService.findProviders
  refine .bind_quiet (alone_nowSecs input world svc 0)
    (.bind_quiet (alone_providers input world svc 0 _)
      (.bind_quiet (alone_discovered input world svc 0 _) ?_))
  simp only
  by_cases hcached : svc.discovered.get content.toKey.toHex (input.clock 0) ≠ []
  · simp only [if_pos hcached]
    exact .pure _ _
  · simp only [if_neg hcached]
    refine .bind_quiet (alone_peek input world svc _) ?_
    by_cases hseeds : svc.seedContacts content.toKey = []
    · simp only [if_pos hseeds]
      exact .pure _ _
    · simp only [if_neg hseeds]
      have hfound := alone_runLookup input world svc j content.toKey
        (svc.seedContacts content.toKey) true
      exact hfound.bind_silent (.bind_quiet (alone_absorbContacts input world svc _)
        (.bind_quiet (alone_cacheDiscovered input world _ 1 _ _)
          (.bind_quiet (alone_nowSecs input world _ 2) (.pure _ _))))

theorem alone_holdersOf (j : Nat) (content : ContentId) :
    (holdersOf content).Solo input world svc
      (svc.holdersOf input.clock (world.swarms j) content).1
      (svc.holdersOf input.clock (world.swarms j) content).2.2
      (some (svc.holdersOf input.clock (world.swarms j) content).2.1) :=
  (alone_findProviders input world svc j content).bind_silent (.pure _ _)

theorem alone_findNode (j : Nat) (peerId : PeerId) :
    (findNode peerId).Solo input world svc (svc.findNode (world.swarms j) peerId).1
      (svc.findNode (world.swarms j) peerId).2.2
      (some (svc.findNode (world.swarms j) peerId).2.1) := by
  have hfound := alone_searchAndAbsorb input world svc j (Key.fromPeerId peerId)
  have hconfig := config_searchAndAbsorb svc (world.swarms j) (Key.fromPeerId peerId)
  unfold findNode DhtService.findNode
  simp only
  cases hsearch : svc.searchAndAbsorb (world.swarms j) (Key.fromPeerId peerId) with
  | mk svc' w =>
    rw [hsearch] at hfound hconfig
    cases w with
    | none => exact hfound.bind_silent (.pure _ _)
    | some w =>
      rw [← hconfig] at hfound
      exact hfound.bind_silent (.pure _ _)

theorem alone_announce (j : Nat) (content : ContentId) (coin : Option Bytes32) :
    (announceProviderWithCollateral content coin).Solo input world svc
      (svc.announceProviderWithCollateral input.clock (world.swarms j) content coin).1
      (svc.announceProviderWithCollateral input.clock (world.swarms j) content coin).2.2
      (some (svc.announceProviderWithCollateral input.clock (world.swarms j) content coin).2.1) :=
  .bind_quiet (alone_reading input world svc 0 0 _)
    (.bind_quiet (alone_providers input world svc 1 _) (alone_publish input world _ j _ _))

theorem alone_bootstrap (j : Nat) (peers : List BootstrapPeer) :
    (bootstrap peers).Solo input world svc (svc.bootstrap (world.swarms j) peers).1
      (svc.bootstrap (world.swarms j) peers).2.2 (svc.bootstrap (world.swarms j) peers).2.1 := by
  unfold bootstrap DhtService.bootstrap
  have hinserted := alone_routing input world svc fun rt =>
    insertAll rt (peers.map BootstrapPeer.toContact)
  cases hall : insertAll svc.routing (peers.map BootstrapPeer.toContact) with
  | mk routing inserted =>
    simp only [hall] at hinserted
    cases inserted with
    | false => exact .bind_quiet hinserted (.halted _)
    | true =>
      refine .bind_quiet hinserted (.bind_quiet (alone_peek input world _ _) ?_)
      exact (alone_runLookup input world _ j _ _ _).bind_silent
        (.bind_quiet (alone_absorbContacts input world _ _) (alone_peek input world _ _))

/-- One key of a republish, in its round `i`. -/
theorem alone_republishKey (i : Nat) (target : Key) (hex : String)
    (hparse : parseKey hex = some target) :
    let record := svc.republishedRecord (svc.providers.announcedCollateral hex) target
      (input.clock (2 * i))
    let stored :=
      { svc with providers := (svc.providers.putAt record (input.clock (2 * i + 1))).1 }
    (republishKey hex).Solo input world svc (stored.publish (world.swarms i) target record).1
      (stored.publish (world.swarms i) target record).2.2 (some ()) := by
  intro record stored
  unfold republishKey
  rw [hparse]
  refine .bind_quiet (alone_reading input world svc (2 * i) 0 _)
    (.bind_quiet (alone_providers input world svc (2 * i) _)
      (.bind_quiet (alone_providers input world svc (2 * i + 1) _) ?_))
  exact (alone_publish input world stored i target record).bind_silent (.pure _ _)

theorem alone_republishAll (i : Nat) (keys : List String) :
    (republishAll keys).Solo input world svc
      (svc.republishFrom input.clock world.swarms i keys).1
      (svc.republishFrom input.clock world.swarms i keys).2.2 (some ()) := by
  induction keys generalizing svc i with
  | nil => exact .pure _ _
  | cons hex rest ih =>
    unfold republishAll DhtService.republishFrom
    cases hparse : parseKey hex with
    | none =>
      have hskipped : (republishKey hex).Solo input world svc svc [] (some ()) := by
        unfold republishKey
        rw [hparse]
        exact .pure _ _
      exact .bind_quiet hskipped (ih svc (i + 1))
    | some target =>
      exact (alone_republishKey input world svc i target hex hparse).bind (ih _ (i + 1))

theorem alone_refreshAll (i : Nat) (indices : List (Fin 256)) :
    (refreshAll indices).Solo input world svc
      (svc.refreshFrom world.random world.swarms i indices).1
      (svc.refreshFrom world.random world.swarms i indices).2 (some ()) := by
  induction indices generalizing svc i with
  | nil => exact .pure _ _
  | cons idx rest ih =>
    unfold refreshAll DhtService.refreshFrom
    refine .bind_quiet (alone_reading input world svc 0 i _) ?_
    exact (alone_searchAndAbsorb input world svc i _).bind (ih _ (i + 1))

theorem alone_ping (j : Nat) (peer : Contact) :
    (ping peer).Solo input world svc (svc.ping (world.swarms j) peer world.nonce).1
      [(peer, .ping world.nonce)] (some (svc.ping (world.swarms j) peer world.nonce).2) := by
  have hnonce : (reading fun _ m => m.nonce).Solo input world svc svc [] (some world.nonce) :=
    alone_reading input world svc 0 0 _
  have hanswer := alone_rpc input world svc j [] peer (.ping world.nonce)
  unfold ping DhtService.ping
  refine .bind_quiet hnonce (hanswer.bind_silent ?_)
  by_cases hpong : (world.swarms j).rpc [] peer (.ping world.nonce) = some (.pong world.nonce)
  · rw [if_pos hpong, if_pos hpong]
    exact .pure _ _
  · rw [if_neg hpong, if_neg hpong]
    exact .bind_quiet (alone_routing input world svc _) (.pure _ _)

theorem alone_answer (i : Nat) (callerPeerId : Option String) (request : DhtRequest) :
    (answer callerPeerId request).Solo input world svc
      (svc.answer (input.clock i) callerPeerId request).1 []
      (svc.answer (input.clock i) callerPeerId request).2 := by
  cases request with
  | ping nonce => exact .pure _ _
  | findNode target =>
    simp only [answer, DhtService.answer]
    cases parseKey target with
    | none => exact .pure _ _
    | some key => exact .bind_quiet (alone_peek input world svc _) (.pure _ _)
  | findProviders contentKey =>
    simp only [answer, DhtService.answer]
    cases parseKey contentKey with
    | none => exact .pure _ _
    | some key =>
      exact .bind_quiet (alone_nowSecs input world svc i)
        (.bind_quiet (alone_providers input world svc i _)
          (.bind_quiet (alone_peek input world svc _) (.pure _ _)))
  | addProvider record =>
    simp only [answer, DhtService.answer]
    by_cases hother : DhtService.namesAnother callerPeerId record = true
    · rw [if_pos hother, if_pos hother]
      exact .pure _ _
    · rw [if_neg hother, if_neg hother]
      have hadmitted := alone_admitVerifiedRecord input world svc i record
      cases hout : svc.admitVerifiedRecord record (input.clock i) with
      | mk svc' outcome =>
        rw [hout] at hadmitted
        rcases outcome with _ | (_ | _)
        · exact hadmitted.bind_none
        · exact .bind_quiet hadmitted (.pure _ _)
        · exact .bind_quiet hadmitted (.pure _ _)

theorem alone_handleRequestFrom (i : Nat) (caller : Option Contact) (request : DhtRequest) :
    (handleRequestFrom caller request).Solo input world svc
      (svc.handleRequestFrom (input.clock i) caller request).1 []
      (svc.handleRequestFrom (input.clock i) caller request).2 := by
  unfold handleRequestFrom DhtService.handleRequestFrom
  cases caller with
  | none => exact .bind_quiet (.pure _ _) (alone_answer input world svc i none request)
  | some c =>
    simp only [DhtService.learnCaller]
    by_cases hself : c.peerId = svc.selfId
    · have hlearnt : (learnCaller (some c)).Solo input world svc svc [] (some ()) := by
        refine .bind_quiet (alone_peek input world svc _) ?_
        rw [if_pos hself]
        exact .pure _ _
      simp only [if_pos hself]
      exact .bind_quiet hlearnt (alone_answer input world svc i _ request)
    · have hlearnt : (learnCaller (some c)).Solo input world svc
          { svc with routing := (svc.routing.insert c.capped).1 } []
          (if (svc.routing.insert c.capped).2 = .panicked then none else some ()) := by
        refine .bind_quiet (alone_peek input world svc _) ?_
        rw [if_neg hself]
        exact alone_insert input world svc c.capped
      simp only [if_neg hself]
      cases hinsert : svc.routing.insert c.capped with
      | mk routing outcome =>
        simp only [hinsert] at hlearnt
        cases outcome with
        | panicked =>
          have hkept : routing = svc.routing := by
            have h := insert_of_panicked (t := svc.routing) (c := c.capped) (by rw [hinsert])
            rwa [hinsert] at h
          rw [hkept] at hlearnt
          exact hlearnt.bind_none
        | inserted => exact .bind_quiet hlearnt (alone_answer input world _ i _ request)
        | full lru => exact .bind_quiet hlearnt (alone_answer input world _ i _ request)

end Operations

end Async

/-- **The machine is one schedule.** Each operation, run whole, is its
routine run alone, in windows that are given what the run gives it. -/
theorem Op.routine_alone (svc : DhtService) (input : Input) (world : World) :
    input.op.routine.Solo input world svc (step svc input world).1 (step svc input world).2.sent
      (step svc input world).2.reply.returned := by
  simp only [step]
  cases input.op with
  | bootstrap peers =>
    have h := (Async.alone_bootstrap input world svc 0 peers).map Reply.count
    simp only
    cases hknown : (svc.bootstrap (world.swarms 0) peers).2.1 <;> rw [hknown] at h <;> exact h
  | addPeer peerId addresses =>
    have h := Async.alone_insert input world svc (Contact.new peerId addresses)
    simp only
    cases hinsert : svc.routing.insert (Contact.new peerId addresses) with
    | mk routing outcome =>
      simp only [hinsert] at h
      cases outcome with
      | panicked => exact h.bind_none
      | inserted => exact .bind_quiet h (.pure _ _)
      | full lru => exact .bind_quiet h (.pure _ _)
  | removePeer peerIdHex => exact (Async.alone_routing input world svc _).map Reply.flag
  | findNode peerId =>
    have h := (Async.alone_findNode input world svc 0 peerId).bind_silent
      (k := fun found => pure ((found.map Reply.contacts).getD .noPeers)) (.pure _ _)
    simp only
    cases hfound : (svc.findNode (world.swarms 0) peerId).2.1 <;> rw [hfound] at h <;> exact h
  | findProviders content =>
    exact (Async.alone_findProviders input world svc 0 content).map Reply.records
  | cachedProviders content =>
    exact (Async.alone_discovered input world svc 0 _).map Reply.records
  | forgetDiscovered content =>
    exact (Async.alone_discovered input world svc 0 _).map Reply.count
  | announceProviderWithCollateral content coin =>
    exact (Async.alone_announce input world svc 0 content coin).map Reply.count
  | withdrawProvider content =>
    exact (Async.alone_providers input world svc 0 _).map Reply.flag
  | ingestVerifiedProvider record =>
    have h := (Async.alone_admitVerifiedRecord input world svc 0 record).map Reply.put
    simp only
    cases hadmission : (svc.admitVerifiedRecord record (input.clock 0)).2 <;>
      rw [hadmission] at h <;> exact h
  | removeProviderRecord contentKey providerPeerId =>
    exact (Async.alone_providers input world svc 0 _).map Reply.flag
  | providerSnapshot maxKeys =>
    exact (Async.alone_providers input world svc 0 _).map Reply.snapshot
  | retractOwnProvider content =>
    exact (Async.alone_access input world svc 0 0 [] fun svc _ =>
      svc.retractOwnProvider content).map Reply.flag
  | holdersOf content =>
    exact (Async.alone_holdersOf input world svc 0 content).map Reply.holders
  | republish =>
    have hkeys := Async.alone_reading input world svc 0 0
      fun svc m => m.keyOrder svc.providers.localAnnouncements
    have hall := Async.alone_republishAll input world svc 0
      (input.keyOrder svc.providers.localAnnouncements)
    have h : Async.republish.Solo input world svc _ _ (some _) :=
      .bind_quiet hkeys (hall.bind_silent (.pure _ _))
    exact h.map Reply.count
  | refreshBuckets =>
    have hall := Async.alone_refreshAll input world svc 0 svc.routing.nonEmptyBucketIndices
    have h : Async.refreshBuckets.Solo input world svc _ _ (some _) :=
      .bind_quiet (Async.alone_peek input world svc _) (hall.bind_silent (.pure _ _))
    exact h.map Reply.count
  | gc =>
    have h : Async.gc.Solo input world svc (svc.gc (input.clock 0)).1 []
        (some (svc.gc (input.clock 0)).2) :=
      .bind_quiet (Async.alone_nowSecs input world svc 0)
        (.bind_quiet (Async.alone_providers input world svc 0 _)
          (.bind_quiet (Async.alone_discovered input world _ 0 _) (.pure _ _)))
    exact h.map Reply.count
  | ping peer =>
    exact (Async.alone_ping input world svc 0 peer).map Reply.flag
  | handleRequestFrom caller request =>
    have h := (Async.alone_handleRequestFrom input world svc 0 caller request).map Reply.response
    simp only
    cases hreply : (svc.handleRequestFrom (input.clock 0) caller request).2 <;>
      rw [hreply] at h <;> exact h
  | knownClosest target => exact (Async.alone_peek input world svc _).map Reply.contacts
  | routingLen => exact (Async.alone_peek input world svc _).map Reply.count

end DigDht.Service
