/-
DigDht.Checked.PanicTheorems — when no operation of a node panics.

A node is `Sized` when its buckets have room for a contact, the cap of the
lookup is a word, and the limits of its stores are words. Then a checked
operation is the plain one as long as its counters fit (`FitsCounters`:
the contacts, the records and the admissions of either store), and so is a
whole run. In the other direction, a node with `k = 0` panics on the first
contact, and one whose cap is out of range on its first lookup.
-/
import DigDht.Checked.Service
import DigDht.Service.FindProvidersTheorems
import DigDht.Service.RefreshTheorems
import DigDht.Service.ServiceTheorems

namespace DigDht

open Checked

/-! ## §1 Stores whose limits are words -/

namespace Store.ProviderStore

structure Sized (s : ProviderStore) : Prop where
  wellFormed : s.WellFormed
  bounded : s.Bounded
  limit : s.limits.maxTotalRecords < wordLimit

theorem sized_withLimits {limits : ProviderStoreLimits} (h : limits.maxTotalRecords < wordLimit) :
    (withLimits limits).Sized :=
  ⟨wellFormed_withLimits limits, bounded_withLimits limits, h⟩

variable {s : ProviderStore}

theorem Sized.step (h : s.Sized) (op : StoreOp) : (Store.step s op).Sized where
  wellFormed := wellFormed_step h.wellFormed op
  bounded := bounded_step h.wellFormed h.bounded op
  limit := by
    rw [limits_step]
    exact h.limit

theorem Sized.exec (h : s.Sized) (ops : List StoreOp) : (Runs.exec Store.step s ops).Sized :=
  Runs.exec_invariant (Q := Sized) (fun _ op hs => hs.step op) h ops

theorem Sized.putAt (h : s.Sized) (r : Record.ProviderRecord) (now : Nat) :
    (s.putAt r now).1.Sized :=
  h.step (.putAt r now)

theorem Sized.len_lt (h : s.Sized) : s.len < wordLimit :=
  lt_of_le_of_lt h.bounded.total h.limit

theorem nextAdmittedSeq_le_step (s : ProviderStore) (op : StoreOp) :
    s.nextAdmittedSeq ≤ (Store.step s op).nextAdmittedSeq := by
  cases op with
  | putAt r now => exact s.nextAdmittedSeq_le_putAt r now
  | remove k x =>
    simp only [Store.step]
    rcases s.remove_cases k x with ⟨-, h⟩ | ⟨ps, -, ⟨-, h⟩ | ⟨-, h⟩⟩ <;> simp [h, setProviders]
  | get _ _ => exact le_rfl
  | snapshot _ _ => exact le_rfl
  | gc _ => exact le_rfl
  | removeKey _ => exact le_rfl
  | markAnnounced _ => exact le_rfl
  | markAnnouncedWithCollateral _ _ => exact le_rfl
  | unmarkAnnounced _ => exact le_rfl

theorem nextAdmittedSeq_le_exec (s : ProviderStore) (ops : List StoreOp) :
    s.nextAdmittedSeq ≤ (Runs.exec Store.step s ops).nextAdmittedSeq :=
  le_foldl (I := fun _ => True) (fun _ _ _ => trivial)
    (fun s op _ => s.nextAdmittedSeq_le_step op) ops trivial

end Store.ProviderStore

namespace Service

open Keyspace Record Routing Lookup Store Wire Content Runs

/-! ## §2 Operations of a sized node -/

/-- What makes a configuration safe: a slot in every bucket, and a cap of
the shortlist that is a word. -/
structure DhtConfig.Safe (config : DhtConfig) : Prop where
  slots : 1 ≤ config.k
  returned : config.k * 3 < wordLimit
  probes : config.k + config.alpha * 2 < wordLimit

/-- The `usize` limits of the stores are words. -/
structure DhtConfig.Words (config : DhtConfig) : Prop where
  maxTotalRecords : config.providerStoreLimits.maxTotalRecords < wordLimit
  maxTotalCached : config.discoveryCacheLimits.maxTotalRecords < wordLimit

namespace DhtService

/-- The bucket's bit, byte and index are in range for every bucket. -/
theorem randomKeyInBucketChecked_eq (svc : DhtService) (idx : Fin 256) (random : Bytes32) :
    svc.randomKeyInBucketChecked idx.val random = some (svc.randomKeyInBucket idx random) := by
  have hidx := idx.isLt
  have hbit : sub 255 idx.val = some (255 - idx.val) := sub_eq_some (by omega)
  have hshift : sub 7 ((255 - idx.val) % 8) = some (7 - (255 - idx.val) % 8) :=
    sub_eq_some (by omega)
  have hskip : add ((255 - idx.val) / 8) 1 = some ((255 - idx.val) / 8 + 1) :=
    add_eq_some (by unfold wordLimit; omega)
  have hrange : ¬(8 ≤ 7 - (255 - idx.val) % 8 ∨ 32 ≤ (255 - idx.val) / 8) := by omega
  simp only [randomKeyInBucketChecked, hbit, hshift, hskip, hrange, Option.bind_eq_bind,
    Option.bind_some, if_false]
  rw [mOfFn_eq_some (v := (svc.randomKeyInBucket idx random).bytes)]
  · rfl
  · intro i
    simp only [getElem?_toList, Option.bind_some, randomKeyInBucket, List.Vector.zipWith_get,
      List.Vector.get_ofFn]
    rcases Nat.lt_trichotomy i.val ((255 - idx.val) / 8) with hlt | heq | hgt
    · rw [if_neg hlt.ne, if_neg (by omega), if_pos hlt]
    · rw [if_pos heq, if_neg (by omega), if_pos heq]
    · rw [if_neg hgt.ne', if_pos (Nat.succ_le_of_lt hgt), if_neg (by omega), if_neg hgt.ne']

variable [Deps]

/-- The buckets have room, and the stores count in words. -/
structure Sized (svc : DhtService) : Prop where
  routed : WellPlaced svc.localId svc.config.k svc.routing
  safe : svc.config.Safe
  providers : svc.providers.Sized
  discovered : svc.discovered.Sized

variable {svc : DhtService}

theorem Sized.rerouted (h : svc.Sized) {routing : RoutingTable}
    (hmoves : TableMoves svc.routing routing) : { svc with routing }.Sized where
  routed := Reach.invariant (Q := WellPlaced svc.localId svc.config.k)
    (fun _ op ht _ => wellPlaced_step ht op) hmoves h.routed
  safe := h.safe
  providers := h.providers
  discovered := h.discovered

theorem Sized.stored (h : svc.Sized) (r : ProviderRecord) (now : Nat) :
    { svc with providers := (svc.providers.putAt r now).1 }.Sized :=
  ⟨h.routed, h.safe, h.providers.putAt r now, h.discovered⟩

theorem Sized.insertChecked (h : svc.Sized) (c : Contact) :
    svc.routing.insertChecked c = some (svc.routing.insert c) :=
  RoutingTable.insertChecked_eq_some h.routed h.safe.slots c

theorem Sized.announced (h : svc.Sized) (keyHex : String) (record : ProviderRecord) (now : Nat) :
    (svc.storeAnnounced keyHex record now).Sized :=
  ⟨h.routed, h.safe,
    h.providers.exec [.putAt record now,
      .markAnnouncedWithCollateral keyHex record.unverifiedMirrorCoinId], h.discovered⟩

/-! ### Inserts in a row -/

theorem insertAllChecked_eq {localId : PeerId} {k : Nat} (hk : 1 ≤ k) {rt : RoutingTable}
    (ht : WellPlaced localId k rt) (contacts : List Contact) :
    insertAll rt contacts = ((insertAll rt contacts).1, true) ∧
      insertAllChecked rt contacts = some (insertAll rt contacts).1 := by
  induction contacts generalizing rt with
  | nil => exact ⟨rfl, rfl⟩
  | cons c rest ih =>
    have hsafe := insert_ne_panicked hk ht c
    have hnext : insertAll rt (c :: rest) = insertAll (rt.insert c).1 rest := by
      rw [insertAll]
      split
      · rename_i hpanic
        rw [hpanic] at hsafe
        exact absurd rfl hsafe
      · rename_i heq
        rw [heq]
    obtain ⟨hall, hchecked⟩ := ih (wellPlaced_step ht (.insert c))
    rw [hnext]
    refine ⟨hall, ?_⟩
    rw [insertAllChecked, List.foldlM_cons,
      RoutingTable.insertChecked_eq_some ht hk c]
    exact hchecked

theorem absorbContactsChecked_eq (h : svc.Sized) (contacts : List Contact) :
    svc.absorbContactsChecked contacts = some (svc.absorbContacts contacts) := by
  have hfold : contacts.foldlM (fun rt c => (rt.insertChecked c.capped).map Prod.fst) svc.routing =
      some (contacts.foldl (fun rt c => (rt.insert c.capped).1) svc.routing) := by
    refine foldlM_eq_some_of_invariant (I := WellPlaced svc.localId svc.config.k) ?_ ?_ _ h.routed
    · intro rt c ht
      exact wellPlaced_step ht (.insert c.capped)
    · intro rt c ht
      rw [RoutingTable.insertChecked_eq_some ht h.safe.slots]
      rfl
  simp [absorbContactsChecked, hfold, absorbContacts]

/-! ### Lookups -/

theorem runLookupChecked_eq (h : svc.Sized) (swarm : Swarm) (target : Key)
    (seeds : List Contact) (stopOnProviders : Bool) :
    svc.runLookupChecked swarm target seeds stopOnProviders =
      some (svc.runLookup swarm target seeds stopOnProviders) :=
  LookupParams.walkChecked_eq_some ⟨h.safe.returned, h.safe.probes⟩ _ _

theorem searchAndAbsorbChecked_eq (h : svc.Sized) (swarm : Swarm) (target : Key) :
    svc.searchAndAbsorbChecked swarm target = some (svc.searchAndAbsorb swarm target) := by
  unfold searchAndAbsorbChecked searchAndAbsorb
  dsimp only
  split
  · rfl
  · simp [runLookupChecked_eq h, absorbContactsChecked_eq h]

theorem findNodeChecked_eq (h : svc.Sized) (swarm : Swarm) (peerId : PeerId) :
    svc.findNodeChecked swarm peerId = some (svc.findNode swarm peerId) := by
  unfold findNodeChecked findNode
  simp only [searchAndAbsorbChecked_eq h, Option.bind_eq_bind, Option.bind_some]
  obtain ⟨svc', w⟩ := svc.searchAndAbsorb swarm (Key.fromPeerId peerId)
  cases w <;> rfl

/-- A lookup returns at most `k` contacts to PUT at. -/
theorem putRecordAtChecked_eq (h : svc.Sized) (swarm : Swarm) (asked : List Contact) (w : Walk)
    (record : ProviderRecord) :
    svc.putRecordAtChecked swarm asked (w.result svc.config.k).closest record =
      some (svc.putRecordAt swarm asked (w.result svc.config.k).closest record) := by
  have hk : svc.config.k < wordLimit := by
    have hreturned := h.safe.returned
    omega
  have hlength : (svc.putTargets (w.result svc.config.k).closest).length < wordLimit := by
    refine lt_of_le_of_lt (le_trans (List.length_filter_le _ _) ?_) hk
    rw [Walk.result, List.length_map]
    exact List.length_take_le _ _
  simp [putRecordAtChecked, count_eq_some _ hlength, putRecordAt]

theorem Sized.searched (h : svc.Sized) (swarm : Swarm) (target : Key) :
    (svc.searchAndAbsorb swarm target).1.Sized := by
  have hmoves : TableMoves svc.routing (svc.searchAndAbsorb swarm target).1.routing :=
    (svc.moves_searchAndAbsorb (K := fun _ => True) target (fun _ _ => trivial)
      fun _ _ => trivial).capped
  obtain ⟨routing, heq⟩ := rerouted_searchAndAbsorb svc swarm target
  rw [heq] at hmoves ⊢
  exact h.rerouted hmoves

theorem publishChecked_eq (h : svc.Sized) (swarm : Swarm) (target : Key)
    (record : ProviderRecord) :
    svc.publishChecked swarm target record = some (svc.publish swarm target record) := by
  have hsearched := h.searched swarm target
  unfold publishChecked publish
  simp only [searchAndAbsorbChecked_eq h, Option.bind_eq_bind, Option.bind_some]
  generalize svc.searchAndAbsorb swarm target = found at hsearched ⊢
  obtain ⟨svc', w⟩ := found
  cases w with
  | none => rfl
  | some w =>
    have hput := putRecordAtChecked_eq hsearched swarm (w.trace.map Prod.fst) w record
    simp [hput]

/-! ### Operations on the stores -/

theorem storeAnnouncedChecked_eq (h : svc.Sized) {keyHex : String} {record : ProviderRecord}
    {now : Nat}
    (hseq : (svc.storeAnnounced keyHex record now).providers.nextAdmittedSeq < wordLimit) :
    svc.storeAnnouncedChecked keyHex record now = some (svc.storeAnnounced keyHex record now) := by
  have hput := ProviderStore.putAtChecked_eq_some h.providers.len_lt hseq
  simp [storeAnnouncedChecked, hput, storeAnnounced]

theorem cacheDiscoveredChecked_eq (h : svc.Sized) {contentKey : String}
    {records : List ProviderRecord} {now : Nat}
    (hseq : (svc.cacheDiscovered contentKey records now).discovered.nextAdmittedSeq < wordLimit) :
    svc.cacheDiscoveredChecked contentKey records now =
      some (svc.cacheDiscovered contentKey records now) := by
  have hfold : (records.filterMap (svc.cacheEntry contentKey now)).foldlM
      (fun cache entry => (cache.putAtChecked entry now).map Prod.fst) svc.discovered =
      some ((records.filterMap (svc.cacheEntry contentKey now)).foldl
        (fun cache entry => (cache.putAt entry now).1) svc.discovered) := by
    refine foldlM_eq_some (I := ProviderStore.Sized) (m := ProviderStore.nextAdmittedSeq) ?_ ?_ ?_ _
      h.discovered hseq
    · intro s r hs
      exact hs.putAt r now
    · intro s r _
      exact s.nextAdmittedSeq_le_putAt r now
    · intro s r hs hlt
      rw [ProviderStore.putAtChecked_eq_some hs.len_lt hlt]
      rfl
  simp [cacheDiscoveredChecked, hfold, cacheDiscovered]

/-- Without a panic the outcome of an admission is there. -/
theorem admitVerifiedRecordChecked_eq (h : svc.Sized) {record : ProviderRecord} {now : Nat}
    (hseq : (svc.admitVerifiedRecord record now).1.providers.nextAdmittedSeq < wordLimit) :
    (svc.admitVerifiedRecordChecked record now).map (fun x => (x.1, some x.2)) =
      some (svc.admitVerifiedRecord record now) := by
  have hfst : (svc.admitVerifiedRecord record now).1.providers =
      (svc.providers.putAt (svc.clampedRecord record now) now).1 :=
    congrArg AssertionSide.providers (svc.admitVerifiedRecord_fst record now).1
  rw [hfst] at hseq
  have hput := ProviderStore.putAtChecked_eq_some h.providers.len_lt hseq
  have hsafe := insert_ne_panicked h.safe.slots h.routed
  unfold admitVerifiedRecordChecked admitVerifiedRecord
  simp only [hput, h.insertChecked, Option.bind_eq_bind, Option.bind_some]
  generalize svc.providers.putAt (svc.clampedRecord record now) now = put
  obtain ⟨providers, outcome⟩ := put
  cases outcome with
  | rejectedOverCapacity => rfl
  | accepted =>
    cases (svc.clampedRecord record now).provider with
    | none => rfl
    | some pid =>
      have hinsert := hsafe (Contact.new pid (svc.clampedRecord record now).addresses)
      simp only
      generalize svc.routing.insert (Contact.new pid (svc.clampedRecord record now).addresses) =
        inserted at hinsert ⊢
      obtain ⟨routing, outcome⟩ := inserted
      cases outcome with
      | panicked => exact absurd rfl hinsert
      | inserted => rfl
      | full lru => rfl

theorem gcChecked_eq (h : svc.Sized) (hrecords : svc.providers.len + svc.discovered.len < wordLimit)
    (now : Nat) : svc.gcChecked now = some (svc.gc now) := by
  have hadd : add (svc.providers.gc now).2 (svc.discovered.gc now).2 =
      some ((svc.providers.gc now).2 + (svc.discovered.gc now).2) :=
    add_eq_some (lt_of_le_of_lt
      (Nat.add_le_add (ProviderStore.removed_gc_le _ now) (ProviderStore.removed_gc_le _ now))
      hrecords)
  simp [gcChecked, ProviderStore.gcChecked_eq_some h.providers.len_lt,
    ProviderStore.gcChecked_eq_some h.discovered.len_lt, gc, hadd]

theorem pingChecked_eq (svc : DhtService) (swarm : Swarm) (peer : Contact) (nonce : UInt64) :
    svc.pingChecked swarm peer nonce = some (svc.ping swarm peer nonce) := by
  unfold pingChecked ping
  simp only [RoutingTable.removeChecked_eq, Option.bind_eq_bind, Option.bind_some]
  split <;> rfl

/-! ### Client operations -/

theorem bootstrapChecked_eq (h : svc.Sized) {swarm : Swarm} {peers : List BootstrapPeer}
    (hlen : (svc.bootstrap swarm peers).1.routing.len < wordLimit) :
    (svc.bootstrapChecked swarm peers).map (fun x => (x.1, some x.2.1, x.2.2)) =
      some (svc.bootstrap swarm peers) := by
  obtain ⟨hall, hchecked⟩ :=
    insertAllChecked_eq h.safe.slots h.routed (peers.map BootstrapPeer.toContact)
  have hmoves :
      TableMoves svc.routing (insertAll svc.routing (peers.map BootstrapPeer.toContact)).1 :=
    (moves_insertAll (K := fun _ => True) svc.routing fun _ _ => trivial).capped
  have hinserted := h.rerouted hmoves
  unfold bootstrap at hlen ⊢
  rw [hall] at hlen ⊢
  simp [bootstrapChecked, hchecked, runLookupChecked_eq hinserted,
    absorbContactsChecked_eq hinserted, RoutingTable.lenChecked_eq_some hlen]

theorem findProvidersChecked_eq (h : svc.Sized) {clock : Nat → Nat} {swarm : Swarm}
    {content : ContentId}
    (hseq : (svc.findProviders clock swarm content).1.discovered.nextAdmittedSeq < wordLimit) :
    svc.findProvidersChecked clock swarm content =
      some (svc.findProviders clock swarm content) := by
  unfold findProvidersChecked
  unfold findProviders at hseq ⊢
  simp only at hseq ⊢
  split
  · rfl
  · rename_i hcached
    rw [if_neg hcached] at hseq
    split
    · rfl
    · rename_i hseeds
      rw [if_neg hseeds] at hseq
      have habsorbed := h.rerouted (svc.tableMoves_absorbContacts
        ((svc.runLookup swarm content.toKey (svc.seedContacts content.toKey) true).1.result
          svc.config.k).closest)
      have hcache := cacheDiscoveredChecked_eq habsorbed hseq
      simp only [runLookupChecked_eq h, absorbContactsChecked_eq h, Option.bind_eq_bind,
        Option.bind_some]
      exact congrArg (Option.bind · _) hcache

theorem announceProviderWithCollateralChecked_eq (h : svc.Sized) {clock : Nat → Nat}
    {swarm : Swarm} {content : ContentId} {coin : Option Bytes32}
    (hseq : (svc.announceProviderWithCollateral clock swarm content
      coin).1.providers.nextAdmittedSeq < wordLimit) :
    svc.announceProviderWithCollateralChecked clock swarm content coin =
      some (svc.announceProviderWithCollateral clock swarm content coin) := by
  unfold announceProviderWithCollateral at hseq ⊢
  simp only at hseq ⊢
  rw [(rerouted_publish _ _ _ _).providers] at hseq
  have hstored := storeAnnouncedChecked_eq h hseq
  have hsized := h.announced content.toKey.toHex (svc.announcedRecord content coin (clock 0))
    (clock 1)
  simp [announceProviderWithCollateralChecked, hstored, publishChecked_eq hsized]

/-! ### Maintenance -/

theorem nextAdmittedSeq_le_republishFrom (svc : DhtService) (clock : Nat → Nat)
    (swarms : Nat → Swarm) (i : Nat) (keys : List String) :
    svc.providers.nextAdmittedSeq ≤
      (svc.republishFrom clock swarms i keys).1.providers.nextAdmittedSeq := by
  have hstore : (svc.republishFrom clock swarms i keys).1.providers = _ :=
    congrArg AssertionSide.providers (republishFrom_spec svc clock swarms i keys).1
  rw [hstore]
  exact ProviderStore.nextAdmittedSeq_le_exec _ _

/-- One key's put never lowers the count of admissions, so the count after
the whole list bounds the count at every key. -/
theorem republishFromChecked_eq (h : svc.Sized) (clock : Nat → Nat) (swarms : Nat → Swarm)
    (i : Nat) (keys : List String)
    (hseq : (svc.republishFrom clock swarms i keys).1.providers.nextAdmittedSeq < wordLimit) :
    svc.republishFromChecked clock swarms i keys =
      some (svc.republishFrom clock swarms i keys) := by
  induction keys generalizing svc i with
  | nil => rfl
  | cons hex rest ih =>
    unfold republishFromChecked
    unfold republishFrom at hseq ⊢
    cases hparse : parseKey hex with
    | none =>
      simp only [hparse] at hseq
      exact ih h (i + 1) hseq
    | some target =>
      simp only [hparse] at hseq ⊢
      let record := svc.republishedRecord (svc.providers.announcedCollateral hex) target
        (clock (2 * i))
      let stored : DhtService :=
        { svc with providers := (svc.providers.putAt record (clock (2 * i + 1))).1 }
      have hstored : stored.Sized := h.stored record (clock (2 * i + 1))
      have hpublished : (stored.publish (swarms i) target record).1.Sized := by
        rw [publish_fst]
        exact hstored.searched (swarms i) target
      have hrest := ih hpublished (i + 1) hseq
      have hput : stored.providers.nextAdmittedSeq < wordLimit := by
        rw [← (stored.rerouted_publish (swarms i) target record).providers]
        exact lt_of_le_of_lt (nextAdmittedSeq_le_republishFrom _ clock swarms (i + 1) rest) hseq
      have hchecked := ProviderStore.putAtChecked_eq_some h.providers.len_lt hput
      have hpublish := publishChecked_eq hstored (swarms i) target record
      simp only [record] at hchecked
      simp only [hchecked, Option.bind_eq_bind, Option.bind_some]
      simp only [stored, record] at hpublish hrest
      simp [hpublish, hrest]

theorem refreshFromChecked_eq (h : svc.Sized) (random : Nat → Bytes32) (swarms : Nat → Swarm)
    (i : Nat) (indices : List (Fin 256)) :
    svc.refreshFromChecked random swarms i indices =
      some (svc.refreshFrom random swarms i indices) := by
  induction indices generalizing svc i with
  | nil => rfl
  | cons idx rest ih =>
    have hrest := ih (h.searched (swarms i) (svc.randomKeyInBucket idx (random i))) (i + 1)
    simp [refreshFromChecked, randomKeyInBucketChecked_eq, searchAndAbsorbChecked_eq h, hrest,
      refreshFrom]

/-! ### Serving side -/

/-- Where every bucket has a slot, the caller is learnt. -/
theorem learnCallerChecked_eq (h : svc.Sized) (caller : Option Contact) :
    ∃ svc', svc'.Sized ∧ svc.learnCaller caller = some svc' ∧
      svc.learnCallerChecked caller = some svc' := by
  cases caller with
  | none => exact ⟨svc, h, rfl, rfl⟩
  | some c =>
    unfold learnCaller learnCallerChecked
    by_cases hself : c.peerId = svc.selfId
    · exact ⟨svc, h, by simp only [if_pos hself], by simp only [if_pos hself]⟩
    · have hmoves := (moves_capped (K := fun _ => True) svc.routing (c := c) trivial).capped
      have hsafe := insert_ne_panicked h.safe.slots h.routed c.capped
      refine ⟨{ svc with routing := (svc.routing.insert c.capped).1 }, h.rerouted hmoves, ?_, ?_⟩
      · show (if c.peerId = svc.selfId then some svc else _) = _
        rw [if_neg hself]
        generalize svc.routing.insert c.capped = inserted at hsafe ⊢
        obtain ⟨routing, outcome⟩ := inserted
        cases outcome with
        | panicked => exact absurd rfl hsafe
        | inserted => rfl
        | full lru => rfl
      · simp [if_neg hself, h.insertChecked]

theorem answerChecked_eq (h : svc.Sized) {now : Nat} {caller : Option String}
    {request : DhtRequest}
    (hseq : (svc.answer now caller request).1.providers.nextAdmittedSeq < wordLimit) :
    (svc.answerChecked now caller request).map (fun x => (x.1, some x.2)) =
      some (svc.answer now caller request) := by
  cases request with
  | ping nonce => rfl
  | findNode target =>
    simp only [answerChecked, answer]
    cases parseKey target <;> rfl
  | findProviders contentKey =>
    simp only [answerChecked, answer]
    cases parseKey contentKey <;> rfl
  | addProvider record =>
    by_cases hother : namesAnother caller record = true
    · simp only [answerChecked, answer, if_pos hother, Option.map_some]
    · have hadmitted : (svc.admitVerifiedRecord record now).1.providers.nextAdmittedSeq <
          wordLimit := by
        simp only [answer, if_neg hother] at hseq
        generalize svc.admitVerifiedRecord record now = admitted at hseq ⊢
        obtain ⟨svc', outcome⟩ := admitted
        rcases outcome with _ | (_ | _) <;> exact hseq
      obtain ⟨⟨svc', outcome⟩, hchecked, hplain⟩ :=
        Option.map_eq_some_iff.mp (admitVerifiedRecordChecked_eq h hadmitted)
      simp only [answerChecked, answer, if_neg hother, hchecked, ← hplain, Option.bind_eq_bind,
        Option.bind_some]
      cases outcome <;> rfl

theorem handleRequestFromChecked_eq (h : svc.Sized) {now : Nat} {caller : Option Contact}
    {request : DhtRequest}
    (hseq : (svc.handleRequestFrom now caller request).1.providers.nextAdmittedSeq < wordLimit) :
    (svc.handleRequestFromChecked now caller request).map (fun x => (x.1, some x.2)) =
      some (svc.handleRequestFrom now caller request) := by
  obtain ⟨svc', hsized, hlearn, hchecked⟩ := learnCallerChecked_eq h caller
  unfold handleRequestFrom at hseq ⊢
  rw [hlearn] at hseq ⊢
  simp only [handleRequestFromChecked, hchecked, Option.bind_eq_bind, Option.bind_some]
  exact answerChecked_eq hsized hseq

/-! ## §3 Steps and runs -/

omit [Deps] in
/-- What a node counts fits the words it is counted in: the contacts of
the table, the records a `gc` can drop, the admissions of either store. -/
structure FitsCounters (svc : DhtService) : Prop where
  contacts : svc.routing.len < wordLimit
  records : svc.providers.len + svc.discovered.len < wordLimit
  admitted : svc.providers.nextAdmittedSeq < wordLimit
  cached : svc.discovered.nextAdmittedSeq < wordLimit

theorem Sized.step (h : svc.Sized) (input : Input) (world : World) :
    (step svc input world).1.Sized := by
  have hmoved := h.rerouted (tableMoves_step svc input world)
  rw [step_fst h.routed]
  exact ⟨hmoved.routed, h.safe, h.providers.exec _, h.discovered.exec _⟩

/-- **A checked step is a step.** A sized node whose counters fit before
and after an operation does not panic in it. -/
theorem stepChecked_eq (h : svc.Sized) {input : Input} {world : World} (hfits : svc.FitsCounters)
    (hnext : (step svc input world).1.FitsCounters) :
    stepChecked svc input world = some (step svc input world) := by
  obtain ⟨op, clock, order, hperm⟩ := input
  cases op with
  | bootstrap peers =>
    obtain ⟨⟨svc', known, sent⟩, hchecked, hplain⟩ :=
      Option.map_eq_some_iff.mp (bootstrapChecked_eq h hnext.contacts)
    simp [stepChecked, step, hchecked, ← hplain]
  | addPeer peerId addresses =>
    -- The branch of the panicking insert is not taken.
    have hsafe := insert_ne_panicked h.safe.slots h.routed (Contact.new peerId addresses)
    simp [stepChecked, step, h.insertChecked]
  | removePeer peerIdHex =>
    simp [stepChecked, step, RoutingTable.removeChecked_eq]
  | findNode peerId =>
    simp [stepChecked, step, findNodeChecked_eq h]
  | findProviders content =>
    have hchecked := findProvidersChecked_eq h hnext.cached
    simp [stepChecked, step, hchecked]
  | announceProviderWithCollateral content coin =>
    have hchecked := announceProviderWithCollateralChecked_eq h hnext.admitted
    simp [stepChecked, step, hchecked]
  | ingestVerifiedProvider record =>
    obtain ⟨⟨svc', outcome⟩, hchecked, hplain⟩ :=
      Option.map_eq_some_iff.mp (admitVerifiedRecordChecked_eq h hnext.admitted)
    simp [stepChecked, step, hchecked, ← hplain]
  | holdersOf content =>
    have hchecked := findProvidersChecked_eq h hnext.cached
    simp [stepChecked, step, hchecked, holdersOf]
  | republish =>
    have hchecked := republishFromChecked_eq h clock world.swarms 0
      (order svc.providers.localAnnouncements) hnext.admitted
    simp [stepChecked, step, hchecked, republish]
  | refreshBuckets =>
    simp [stepChecked, step, refreshFromChecked_eq h, refreshBuckets]
  | gc =>
    simp [stepChecked, step, gcChecked_eq h hfits.records]
  | ping peer =>
    simp [stepChecked, step, pingChecked_eq]
  | handleRequestFrom caller request =>
    obtain ⟨⟨svc', response⟩, hchecked, hplain⟩ :=
      Option.map_eq_some_iff.mp (handleRequestFromChecked_eq h hnext.admitted)
    simp [stepChecked, step, hchecked, ← hplain]
  | providerSnapshot maxKeys =>
    simp [stepChecked, step, ProviderStore.snapshotChecked_eq_some h.providers.len_lt]
  | routingLen =>
    simp [stepChecked, step, RoutingTable.lenChecked_eq_some hfits.contacts]
  | cachedProviders _ => rfl
  | forgetDiscovered _ => rfl
  | withdrawProvider _ => rfl
  | removeProviderRecord _ _ => rfl
  | retractOwnProvider _ => rfl
  | knownClosest _ => rfl

/-- A run of checked steps is the run. -/
theorem runChecked_eq (h : svc.Sized) {run : List (Input × World)}
    (hfits : Always stepState FitsCounters svc run) :
    runChecked svc run = some (exec stepState svc run) := by
  induction run generalizing svc with
  | nil => rfl
  | cons x rest ih =>
    obtain ⟨hhead, htail⟩ := hfits
    have hstep := stepChecked_eq h hhead htail.head
    rw [runChecked, List.foldlM_cons, hstep]
    exact ih (h.step x.1 x.2) htail

/-! ## §4 The configurations that never panic -/

section Configurations

variable (localId : PeerId) (addresses : List CandidateAddr) (config : DhtConfig)

theorem sized_new (hwords : config.Words) (hsafe : config.Safe) :
    (new localId addresses config).Sized where
  routed := wellPlaced_new localId config.k
  safe := hsafe
  providers := ProviderStore.sized_withLimits hwords.maxTotalRecords
  discovered := ProviderStore.sized_withLimits hwords.maxTotalCached

omit [Deps] in
/-- A node that has learnt nothing counts nothing. -/
theorem fitsCounters_of_rerouted {svc : DhtService}
    (h : Rerouted (new localId addresses config) svc) (hempty : svc.routing.contacts = []) :
    svc.FitsCounters := by
  have hzero : 0 < wordLimit := by decide
  have hlen : svc.routing.len = 0 := by
    rw [RoutingTable.len_eq, hempty]
    rfl
  obtain ⟨routing, rfl⟩ := h
  exact ⟨hlen.trans_lt hzero, hzero, hzero, hzero⟩

omit [Deps] in
theorem fitsCounters_new : (new localId addresses config).FitsCounters :=
  fitsCounters_of_rerouted localId addresses config ⟨_, rfl⟩ (RoutingTable.contacts_new _ _)

/-- There is a peer in every bucket; the text of its id decodes to it. -/
theorem exists_bucketOf_new [LawfulPeerIdHex] (idx : Fin 256) :
    ∃ p : PeerId,
      (new localId addresses config).routing.bucketOf (Contact.new p []) = some idx := by
  let svc := new localId addresses config
  let zeros : Bytes32 := List.Vector.replicate 32 0
  refine ⟨⟨(svc.randomKeyInBucket idx zeros).bytes⟩, ?_⟩
  have hbucket := svc.bucketIndex_randomKeyInBucket idx zeros
  simp only [RoutingTable.bucketOf, Contact.key, Contact.peer, Contact.new,
    LawfulPeerIdHex.fromHex_toHex, Option.map_some, Option.bind_some]
  exact hbucket

variable {config}

/-- Without slots, the first contact is a panic, and the table stays
empty. -/
theorem addPeer_panics [LawfulPeerIdHex] (hk : config.k = 0) :
    ∃ x : Input × World, stepChecked (new localId addresses config) x.1 x.2 = none ∧
      (stepState (new localId addresses config) x).FitsCounters := by
  obtain ⟨p, hbucket⟩ := exists_bucketOf_new localId addresses config 0
  let x : Input × World := (Input.at 0 (.addPeer p []), tellingWorld .addProviderOk)
  have hvalid := valid_new localId addresses config
  have hpanic : ((new localId addresses config).routing.insert (Contact.new p [])).2 = .panicked :=
    (insert_panicked_iff hvalid.routed _).mpr ⟨hk, by rw [hbucket]; rfl⟩
  refine ⟨x, ?_, ?_⟩
  · show ((new localId addresses config).routing.insertChecked _).bind _ = none
    rw [RoutingTable.insertChecked_eq, if_pos hpanic]
    rfl
  · have hrouted :
        WellPlaced localId config.k (stepState (new localId addresses config) x).routing :=
      (hvalid.rerouted (tableMoves_step _ x.1 x.2)).routed
    refine fitsCounters_of_rerouted localId addresses config ?_ ?_
    · simp only [stepState, step, x, Input.at]
      split <;> exact ⟨_, rfl⟩
    · rw [List.eq_nil_iff_forall_not_mem]
      intro c hc
      obtain ⟨i, hi⟩ := RoutingTable.mem_contacts.mp hc
      have hcapped := hrouted.capped i
      have hpos := List.length_pos_of_mem hi
      omega

/-- With the cap out of range, the lookup of a bootstrap from nobody is a
panic. -/
theorem bootstrap_panics (hcap : ¬(config.k * 3 < wordLimit ∧
    config.k + config.alpha * 2 < wordLimit)) :
    ∃ x : Input × World, stepChecked (new localId addresses config) x.1 x.2 = none ∧
      (stepState (new localId addresses config) x).FitsCounters := by
  let svc := new localId addresses config
  let x : Input × World := (Input.at 0 (.bootstrap []), tellingWorld .addProviderOk)
  have hlookup : svc.runLookupChecked (x.2.swarms 0) (Key.fromPeerId localId) [] false = none :=
    LookupParams.walkChecked_eq_none (fun hfits => hcap ⟨hfits.returned, hfits.probes⟩) _ _
  have hbootstrap : svc.bootstrapChecked (x.2.swarms 0) [] = none :=
    congrArg (Option.bind · _) hlookup
  have hheard : ∀ c, Hears x.1 x.2 c → False := by
    intro c hc
    cases hc with
    | bootstrap peers p hop hp => cases hop; cases hp
    | told i c hc => exact absurd (names_tellingWorld hc) (List.not_mem_nil)
    | addPeer _ _ hop => cases hop
    | ingest _ _ _ hop _ => cases hop
    | serve _ _ _ _ hop _ => cases hop
    | caller _ _ hop => cases hop
  refine ⟨x, ?_, ?_⟩
  · exact congrArg (Option.bind · _) hbootstrap
  · have hnobody : ∀ c ∈ svc.routing.contacts, False := by
      intro c hc
      rw [show svc.routing.contacts = [] from RoutingTable.contacts_new _ _] at hc
      cases hc
    have hmoves := moves_step (K := fun _ => False) (fun _ h => h) hnobody hheard
    exact fitsCounters_of_rerouted localId addresses config (svc.rerouted_bootstrap _ [])
      (List.eq_nil_iff_forall_not_mem.mpr (Moves.known (fun _ h => h) hmoves hnobody))

/-- A node never panics, whatever it is asked and told while its counters
fit, exactly when its configuration is safe. -/
theorem never_panics_iff [LawfulPeerIdHex] (hwords : config.Words) :
    (∀ run, Always stepState FitsCounters (new localId addresses config) run →
      (runChecked (new localId addresses config) run).isSome = true) ↔ config.Safe := by
  have hnew := fitsCounters_new localId addresses config
  constructor
  · intro hruns
    have hnone : ∀ x : Input × World,
        stepChecked (new localId addresses config) x.1 x.2 = none →
        ¬(stepState (new localId addresses config) x).FitsCounters := by
      intro x hx hfits
      have hsome := hruns [x] ⟨hnew, hfits⟩
      rw [runChecked, List.foldlM_cons, hx] at hsome
      cases hsome
    have hslots : 1 ≤ config.k := by
      rw [Nat.one_le_iff_ne_zero]
      intro hk
      obtain ⟨x, hx, hfits⟩ := addPeer_panics localId addresses hk
      exact hnone x hx hfits
    have hcap : config.k * 3 < wordLimit ∧ config.k + config.alpha * 2 < wordLimit := by
      by_contra hcap
      obtain ⟨x, hx, hfits⟩ := bootstrap_panics localId addresses hcap
      exact hnone x hx hfits
    exact ⟨hslots, hcap.1, hcap.2⟩
  · intro hsafe run hfits
    rw [runChecked_eq (sized_new localId addresses config hwords hsafe) hfits]
    rfl

end Configurations

end DhtService

/-! ### On a sample node -/

section Samples

attribute [local instance] sampleDeps

/-- A peer this node has not met asks it for a sign of life. -/
def strangerPings : List (Input × World) :=
  [(Input.at 0 (.handleRequestFrom (some (sampleContact 1)) (.ping 7)),
    tellingWorld .addProviderOk)]

/-- With the default configuration the ping is answered. -/
theorem default_survives_ping :
    (runChecked (DhtService.new (samplePeer 9) [] .default) strangerPings).isSome = true :=
  (DhtService.never_panics_iff (samplePeer 9) [] ⟨by decide, by decide⟩).mpr
    ⟨by decide, by decide, by decide⟩ strangerPings
    ⟨⟨by decide +kernel, by decide +kernel, by decide +kernel, by decide +kernel⟩,
      ⟨by decide +kernel, by decide +kernel, by decide +kernel, by decide +kernel⟩⟩

/-- With `k = 0` the same ping is a panic, and with `k = 2 ^ 63` a
bootstrap from nobody is one. -/
theorem zero_or_huge_k_panics :
    runChecked (DhtService.new (samplePeer 9) [] { DhtConfig.default with k := 0 })
        strangerPings = none ∧
      runChecked (DhtService.new (samplePeer 9) [] { DhtConfig.default with k := 2 ^ 63 })
        [(Input.at 0 (.bootstrap []), tellingWorld .addProviderOk)] = none := by
  decide +kernel

end Samples

end Service

end DigDht
