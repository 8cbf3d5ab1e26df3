/-
DigDht.Service.FindableTheorems — what is stored and what is found.

The store is indexed by the content key as it was WRITTEN; a request for
it is parsed and rendered again. The two agree on the lowercase hex of a
key and on no other text, so an accepted record is found exactly when its
key is written that way (§2). A node's own records pass the same
admission control as anybody's, and neither an announce nor a republish
looks at the outcome: the record is served exactly when it was in the
store already or the store had room for it (§3).
-/
import DigDht.Service.FindProvidersTheorems
import DigDht.Service.NonInterference
import DigDht.Store.AdmissionTheorems

namespace DigDht.Service

open Keyspace Record Routing Lookup Store Wire Content Runs

/-- A network that never answers. -/
def World.silent : World where
  swarms _ := {
    rpc := fun _ _ _ => none
    arrival := fun _ batch => batch
    arrival_perm := fun _ => List.Perm.refl }
  random _ := List.Vector.replicate 32 0
  nonce := 0

section Findable

variable [Deps]

namespace DhtService

/-! ## §1 Asking a node for providers -/

/-- A request for the providers of `contentKey` is answered with a list
that has `r` in it. -/
def Finds (svc : DhtService) (now : Nat) (caller : Option Contact) (contentKey : String)
    (r : ProviderRecord) : Prop :=
  ∃ providers closer,
    (svc.handleRequestFrom now caller (.findProviders contentKey)).2 =
      some (.providers providers closer) ∧ r ∈ providers

/-- Serving a request is a step of the machine. -/
theorem Valid.handleRequestFrom {svc : DhtService} (h : svc.Valid) (now : Nat)
    (caller : Option Contact) (request : DhtRequest) :
    (svc.handleRequestFrom now caller request).1.Valid ∧
      (svc.handleRequestFrom now caller request).1.toNodeProfile = svc.toNodeProfile := by
  let input : Input := .at now (.handleRequestFrom caller request)
  exact ⟨valid_step h input .silent, toNodeProfile_step h input .silent⟩

/-- A request is answered unless learning its caller panics. -/
theorem handleRequestFrom_findProviders {svc : DhtService} (h : svc.Valid) (now : Nat)
    (caller : Option Contact) (contentKey : String) :
    ∃ closer : Key → List Contact,
      (svc.handleRequestFrom now caller (.findProviders contentKey)).2 =
      if svc.callerPanics caller then none
      else match parseKey contentKey with
        | none => some (.error 2 "bad content key")
        | some key => some (.providers (svc.providers.get key.toHex now) (closer key)) := by
  unfold handleRequestFrom
  rcases learnCaller_spec h.routed caller with ⟨hpanics, hlearn⟩ | ⟨hpanics, routing, hlearn⟩
  · exact ⟨fun _ => [], by simp [hlearn, hpanics]⟩
  · refine ⟨fun key => routing.closest key, ?_⟩
    simp only [hlearn, hpanics, answer]
    cases parseKey contentKey <;> rfl

theorem finds_iff {svc : DhtService} (h : svc.Valid) {now : Nat} {caller : Option Contact}
    {contentKey : String} {r : ProviderRecord} :
    svc.Finds now caller contentKey r ↔ svc.callerPanics caller = false ∧
      ∃ key, parseKey contentKey = some key ∧ r ∈ svc.providers.get key.toHex now := by
  obtain ⟨closer, hreply⟩ := handleRequestFrom_findProviders h now caller contentKey
  unfold Finds
  rw [hreply]
  cases svc.callerPanics caller with
  | true => simp
  | false =>
    cases parseKey contentKey with
    | none => simp
    | some key =>
      constructor
      · intro hfound
        obtain ⟨providers, closer', heq, hr⟩ := hfound
        cases heq
        exact ⟨rfl, key, rfl, hr⟩
      · intro hstored
        obtain ⟨-, key', heq, hr⟩ := hstored
        cases heq
        exact ⟨_, _, rfl, hr⟩

/-! ## §2 Accepted records -/

theorem admitVerifiedRecord_outcome {svc : DhtService} {record : ProviderRecord} {now : Nat}
    {outcome : PutOutcome} (h : (svc.admitVerifiedRecord record now).2 = some outcome) :
    (svc.providers.putAt (svc.clampedRecord record now) now).2 = outcome := by
  unfold admitVerifiedRecord at h
  simp only at h
  split at h
  · split at h
    · cases h
    · exact Option.some.inj h
  · exact Option.some.inj h

/-- An AddProvider that was accepted is a put that was. -/
theorem accepted_spec {svc : DhtService} {now : Nat} {caller : Option Contact}
    {record : ProviderRecord}
    (h : (svc.handleRequestFrom now caller (.addProvider record)).2 = some .addProviderOk) :
    (svc.handleRequestFrom now caller (.addProvider record)).1.providers =
        (svc.providers.putAt (svc.clampedRecord record now) now).1 ∧
      (svc.providers.putAt (svc.clampedRecord record now) now).2 = .accepted := by
  unfold handleRequestFrom at h ⊢
  cases hlearn : svc.learnCaller caller with
  | none =>
    rw [hlearn] at h
    cases h
  | some learnt =>
    obtain ⟨routing, rfl⟩ := rerouted_learnCaller hlearn
    have hside := (admitVerifiedRecord_fst { svc with routing } record now).1
    have houtcome := @admitVerifiedRecord_outcome _ { svc with routing } record now .accepted
    rw [hlearn] at h
    simp only [answer] at h ⊢
    split at h
    · cases h
    · rename_i hown
      rw [if_neg hown]
      revert h hside houtcome
      cases admitVerifiedRecord { svc with routing } record now with
      | mk svc' outcome =>
        intro hside houtcome h
        rcases outcome with _ | (_ | _)
        · cases h
        · exact ⟨congrArg AssertionSide.providers hside, houtcome rfl⟩
        · cases h

/-- **Accepted means findable, for a key in lowercase hex.** A record that
was accepted is found, by a caller the node can learn and until its
clamped expiry, exactly when its key is the text of a key. -/
theorem accepted_findable_iff (localId : PeerId) (addresses : List CandidateAddr)
    (config : DhtConfig) (before : List (Input × World)) (now now' : Nat)
    (caller asker : Option Contact) (record : ProviderRecord)
    (hok : ((exec stepState (new localId addresses config) before).handleRequestFrom now caller
      (.addProvider record)).2 = some .addProviderOk)
    (hsoon : now' < min record.expiresAt (saturatingAdd now config.providerTtlSecs)) :
    let svc := exec stepState (new localId addresses config) before
    (svc.handleRequestFrom now caller (.addProvider record)).1.Finds now' asker record.contentKey
        { contentKey := record.contentKey
          providerPeerId := record.providerPeerId
          addresses := sortAndCapAddresses record.addresses
          expiresAt := min record.expiresAt (saturatingAdd now config.providerTtlSecs)
          unverifiedMirrorCoinId := normalizeMirrorCoinId record.unverifiedMirrorCoinId } ↔
      svc.callerPanics asker = false ∧ ∃ key : Key, record.contentKey = key.toHex := by
  intro svc
  have hvalid : svc.Valid := valid_exec localId addresses config before
  have hconfig : svc.config = config := config_exec localId addresses config before
  have hreply : (svc.handleRequestFrom now caller (.addProvider record)).2 = some .addProviderOk :=
    hok
  clear_value svc
  subst hconfig
  obtain ⟨hvalid', hprofile⟩ := hvalid.handleRequestFrom now caller (.addProvider record)
  obtain ⟨hstore, haccepted⟩ := accepted_spec hreply
  obtain ⟨e, he, hrecord⟩ := ProviderStore.entry_putAt_accepted haccepted
  rw [finds_iff hvalid', hprofile]
  refine and_congr_right ?_
  intro _
  constructor
  · intro h
    obtain ⟨key, -, hmem⟩ := h
    obtain ⟨x, e', he', hr, -⟩ := ProviderStore.mem_get hmem
    have hkey := (hvalid'.providers.key_agrees _ _ _ he').1
    rw [hr] at hkey
    exact ⟨key, hkey⟩
  · intro h
    obtain ⟨key, hkey⟩ := h
    refine ⟨key, by rw [hkey, parseKey_toHex], ?_⟩
    rw [hstore, ← hkey]
    have hlive : e.record.isExpired now' = false := by
      rw [hrecord, ← Bool.not_eq_true, ProviderRecord.isExpired_iff]
      simp only [NodeProfile.clampedRecord]
      omega
    have hfound := ProviderStore.mem_get_of_entry he hlive
    rw [hrecord] at hfound
    exact hfound

/-! ## §3 A node's own announcements -/

/-- The node's own record for `hex` is stored already, or the store has
room for it after the records that the keys of `earlier` add. -/
def HasRoomFor (svc : DhtService) (earlier : List String) (hex : String) : Prop :=
  svc.providers.entry hex svc.selfId ≠ none ∨
    svc.providers.len + earlier.countP (fun k => svc.providers.Adds svc.selfId k) <
      svc.providers.limits.maxTotalRecords

instance (svc : DhtService) (earlier : List String) (hex : String) :
    Decidable (svc.HasRoomFor earlier hex) :=
  inferInstanceAs (Decidable (_ ∨ _))

theorem republishOps_append (a : AssertionSide) (clock : Nat → Nat) (i : Nat)
    (keys keys' : List String) : a.republishOps clock i (keys ++ keys') =
      a.republishOps clock i keys ++ a.republishOps clock (i + keys.length) keys' := by
  induction keys generalizing i with
  | nil => rfl
  | cons hex rest ih =>
    have hi : i + 1 + rest.length = i + (rest.length + 1) := by omega
    simp only [List.cons_append, AssertionSide.republishOps, ih, List.length_cons, hi]
    cases parseKey hex <;> rfl

/-- Over keys in lowercase hex a republish puts one record a key. -/
theorem republishOps_eq_puts {a : AssertionSide} (clock : Nat → Nat) (i : Nat)
    {keys : List String} (hkeys : ∀ hex ∈ keys, ∃ key : Key, hex = key.toHex) :
    ∃ puts : List (ProviderRecord × Nat),
      a.republishOps clock i keys = puts.map (fun p => .putAt p.1 p.2) ∧
      puts.map (fun p => p.1.contentKey) = keys ∧ ∀ p ∈ puts, p.1.providerPeerId = a.selfId := by
  induction keys generalizing i with
  | nil => exact ⟨[], rfl, rfl, nofun⟩
  | cons hex rest ih =>
    obtain ⟨key, rfl⟩ := hkeys hex List.mem_cons_self
    obtain ⟨puts, hops, hmap, hids⟩ :=
      ih (i + 1) (fun hex hmem => hkeys hex (List.mem_cons_of_mem _ hmem))
    refine ⟨(a.republishedRecord (a.providers.announcedCollateral key.toHex) key (clock (2 * i)),
      clock (2 * i + 1)) :: puts, ?_, ?_, ?_⟩
    · simp only [AssertionSide.republishOps, parseKey_toHex, hops, List.map_cons]
    · rw [List.map_cons, hmap]
      rfl
    · intro p hp
      rcases List.mem_cons.mp hp with rfl | hp
      · rfl
      · exact hids p hp

/-- A node's own record is live until its lifetime is over. -/
theorem republishedRecord_live {node : NodeProfile} {pointer : Option String} {target : Key}
    {built now : Nat} (h : now < saturatingAdd built node.config.providerTtlSecs) :
    (node.republishedRecord pointer target built).isExpired now = false := by
  rw [← Bool.not_eq_true, ProviderRecord.isExpired_iff]
  exact Nat.not_le.mpr h

/-- The record is found exactly when the key's inner map has it live. -/
theorem finds_own_iff {svc : DhtService} (h : svc.Valid) {now : Nat} {caller : Option Contact}
    {target : Key} {r : ProviderRecord}
    (hserved : (svc.handleRequestFrom now caller (.findProviders target.toHex)).2 ≠ none) :
    svc.Finds now caller target.toHex r ↔ r ∈ svc.providers.get target.toHex now := by
  obtain ⟨closer, hreply⟩ := handleRequestFrom_findProviders h now caller target.toHex
  rw [hreply] at hserved
  rw [finds_iff h, parseKey_toHex]
  cases hpanics : svc.callerPanics caller with
  | true => simp [hpanics] at hserved
  | false => simp

/-- An announce is served exactly when its put was accepted. -/
theorem announce_served_iff {svc : DhtService} (h : svc.Valid) {input : Input} (world : World)
    {content : ContentId} {coin : Option Bytes32}
    (hop : input.op = .announceProviderWithCollateral content coin) {asker : Option Contact}
    {now : Nat} (hsoon : now < saturatingAdd (input.clock 0) svc.config.providerTtlSecs)
    (hserved : ((step svc input world).1.handleRequestFrom now asker
      (.findProviders content.toKey.toHex)).2 ≠ none) :
    (step svc input world).1.Finds now asker content.toKey.toHex
        (svc.republishedRecord
          ((step svc input world).1.providers.announcedCollateral content.toKey.toHex)
          content.toKey (input.clock 0)) ↔
      svc.HasRoomFor [] content.toKey.toHex := by
  let r := svc.announcedRecord content coin (input.clock 0)
  have hr : r = svc.republishedRecord (coin.map toHex64) content.toKey (input.clock 0) :=
    NodeProfile.announcedRecord_eq _ _ _ _
  have hstore : (step svc input world).1.providers =
      (svc.providers.putAt r (input.clock 1)).1.markAnnouncedWithCollateral content.toKey.toHex
        r.unverifiedMirrorCoinId := by
    rw [providers_step h, AssertionSide.storeOps, hop]
    rfl
  have hpointer : (step svc input world).1.providers.announcedCollateral content.toKey.toHex =
      coin.map toHex64 := by
    rw [hstore, hr]
    simp [ProviderStore.announcedCollateral, ProviderStore.markAnnouncedWithCollateral,
      NodeProfile.republishedRecord]
  have hlive : r.isExpired now = false := hr ▸ republishedRecord_live hsoon
  have hkey : r.contentKey = content.toKey.toHex := by rw [hr]; rfl
  have hid : r.providerPeerId = svc.selfId := by rw [hr]; rfl
  have hget := ProviderStore.mem_get_putAt_iff h.providers (input.clock 1) hlive
  rw [hkey, hid] at hget
  rw [finds_own_iff (valid_step h input world) hserved, hpointer, ← hr, hstore, HasRoomFor,
    List.countP_nil, Nat.add_zero]
  exact hget

section Covering

variable {svc : DhtService} {input : Input} {content : ContentId} {earlier later : List String}

/-- A work list is without repetition, and of keys in lowercase hex. -/
theorem work_list_spec (h : svc.Valid)
    (hkeys : input.keyOrder svc.providers.localAnnouncements =
      earlier ++ content.toKey.toHex :: later) :
    (content.toKey.toHex :: earlier).Nodup ∧ (content.toKey.toHex :: later).Nodup ∧
      ∀ hex ∈ earlier ++ content.toKey.toHex :: later, ∃ key : Key, hex = key.toHex := by
  have hperm := input.keyOrder_perm svc.providers.localAnnouncements
  rw [hkeys] at hperm
  have hnodup : (earlier ++ content.toKey.toHex :: later).Nodup :=
    hperm.nodup_iff.mpr svc.providers.announced.keys_nodup
  have hfront : (content.toKey.toHex :: (earlier ++ later)).Nodup :=
    List.perm_middle.nodup_iff.mp hnodup
  refine ⟨?_, hnodup.sublist (List.sublist_append_right _ _), ?_⟩
  · exact hfront.sublist ((List.sublist_append_left _ _).cons_cons _)
  · exact fun hex hmem => h.announced hex (hperm.mem_iff.mp hmem)

/-- The store after a republish that covers `content`: the puts of the
keys before it, its own put, the puts of the keys after it. -/
theorem providers_republish (h : svc.Valid) (world : World) (hop : input.op = .republish)
    (hkeys : input.keyOrder svc.providers.localAnnouncements =
      earlier ++ content.toKey.toHex :: later) :
    (step svc input world).1.providers =
      exec Store.step
        ((exec Store.step svc.providers
          (svc.assertionSide.republishOps input.clock 0 earlier)).putAt
            (svc.republishedRecord (svc.providers.announcedCollateral content.toKey.toHex)
              content.toKey (input.clock (2 * earlier.length)))
            (input.clock (2 * earlier.length + 1))).1
        (svc.assertionSide.republishOps input.clock (earlier.length + 1) later) := by
  have hwork : input.keyOrder svc.assertionSide.providers.localAnnouncements =
      earlier ++ content.toKey.toHex :: later := hkeys
  rw [providers_step h, AssertionSide.storeOps, hop]
  simp only
  rw [hwork, republishOps_append, AssertionSide.republishOps, parseKey_toHex, exec_append]
  simp only [Nat.zero_add, exec_cons]
  rfl

/-- As far as `content` goes, that is its own put into a store `s` that
has the records of the earlier keys, and room as they left it. -/
theorem republish_covers (h : svc.Valid) (hmax : 1 ≤ svc.providers.limits.maxProvidersPerKey)
    (world : World) (hop : input.op = .republish)
    (hkeys : input.keyOrder svc.providers.localAnnouncements =
      earlier ++ content.toKey.toHex :: later) :
    ∃ s : ProviderStore, s.WellFormed ∧ s.limits = svc.providers.limits ∧
      s.byKey.lookup content.toKey.toHex = svc.providers.byKey.lookup content.toKey.toHex ∧
      (s.len < s.limits.maxTotalRecords ↔ svc.providers.len +
        earlier.countP (fun k => svc.providers.Adds svc.selfId k) <
          svc.providers.limits.maxTotalRecords) ∧
      (step svc input world).1.providers.announced = svc.providers.announced ∧
      (step svc input world).1.providers.byKey.lookup content.toKey.toHex =
        (s.putAt (svc.republishedRecord
            (svc.providers.announcedCollateral content.toKey.toHex) content.toKey
            (input.clock (2 * earlier.length)))
          (input.clock (2 * earlier.length + 1))).1.byKey.lookup content.toKey.toHex := by
  obtain ⟨hearlier, hlater, hcanon⟩ := work_list_spec h hkeys
  obtain ⟨puts, hops, hmap, hids⟩ := republishOps_eq_puts (a := svc.assertionSide) input.clock 0
    fun hex hmem => hcanon hex (List.mem_append_left _ hmem)
  obtain ⟨puts', hops', hmap', hids'⟩ := republishOps_eq_puts (a := svc.assertionSide)
    input.clock (earlier.length + 1)
    fun hex hmem => hcanon hex (List.mem_append_right _ (List.mem_cons_of_mem _ hmem))
  have hstep := providers_republish h world hop hkeys
  rw [hops, hops'] at hstep
  obtain ⟨hlookup, hlen⟩ := ProviderStore.len_exec_puts (k := content.toKey.toHex) puts
    h.providers hmax hids (by rwa [hmap])
  let s := exec Store.step svc.providers (puts.map fun p => .putAt p.1 p.2)
  have hlimits : s.limits = svc.providers.limits := ProviderStore.limits_exec _ _
  have hwf : s.WellFormed := ProviderStore.wellFormed_exec h.providers _
  refine ⟨s, hwf, hlimits, hlookup, ?_, ?_, ?_⟩
  · rw [hlimits, hlen, ← hmap, List.countP_map]
    rfl
  · rw [hstep, ProviderStore.announced_exec_puts, ProviderStore.announced_putAt,
      ProviderStore.announced_exec_puts]
  · rw [hstep]
    refine (ProviderStore.len_exec_puts (k := content.toKey.toHex) puts'
      (ProviderStore.wellFormed_step hwf (.putAt _ _)) ?_ hids' (by rwa [hmap'])).1
    rw [ProviderStore.limits_step, hlimits]
    exact hmax

end Covering

/-- A republish is served exactly when the put of its own key was
accepted. -/
theorem republish_served_iff {svc : DhtService} (h : svc.Valid)
    (hmax : 1 ≤ svc.providers.limits.maxProvidersPerKey) {input : Input} (world : World)
    {content : ContentId} (hop : input.op = .republish) {earlier later : List String}
    (hkeys : input.keyOrder svc.providers.localAnnouncements =
      earlier ++ content.toKey.toHex :: later) {asker : Option Contact} {now : Nat}
    (hsoon : now < saturatingAdd (input.clock (2 * earlier.length)) svc.config.providerTtlSecs)
    (hserved : ((step svc input world).1.handleRequestFrom now asker
      (.findProviders content.toKey.toHex)).2 ≠ none) :
    (step svc input world).1.Finds now asker content.toKey.toHex
        (svc.republishedRecord
          ((step svc input world).1.providers.announcedCollateral content.toKey.toHex)
          content.toKey (input.clock (2 * earlier.length))) ↔
      svc.HasRoomFor earlier content.toKey.toHex := by
  obtain ⟨s, hs, hlimits, hlookup, hlen, hannounced, hput⟩ :=
    republish_covers h hmax world hop hkeys
  have hpointer : (step svc input world).1.providers.announcedCollateral content.toKey.toHex =
      svc.providers.announcedCollateral content.toKey.toHex := by
    rw [ProviderStore.announcedCollateral, hannounced, ProviderStore.announcedCollateral]
  have hentry : s.entry content.toKey.toHex svc.selfId =
      svc.providers.entry content.toKey.toHex svc.selfId := by
    rw [ProviderStore.entry, hlookup, ProviderStore.entry]
  have hget := ProviderStore.mem_get_putAt_iff hs
    (r := svc.republishedRecord (svc.providers.announcedCollateral content.toKey.toHex)
      content.toKey (input.clock (2 * earlier.length)))
    (input.clock (2 * earlier.length + 1)) (republishedRecord_live hsoon)
  rw [finds_own_iff (valid_step h input world) hserved, hpointer, ProviderStore.get_congr hput,
    HasRoomFor, ← hlen, ← hentry]
  exact hget

/-- **When an announcement is served.** After an announce of `content`, or
a republish that covers it, a request served before the lifetime is over
finds this node's own record, with its current addresses and the pointer
remembered, exactly when the record was stored already or the store had
room for it. -/
theorem announced_served_iff (localId : PeerId) (addresses : List CandidateAddr)
    (config : DhtConfig) (before : List (Input × World))
    (hmax : 1 ≤ config.providerStoreLimits.maxProvidersPerKey) (content : ContentId)
    (input : Input) (world : World) (asker : Option Contact) (now : Nat) :
    let svc := exec stepState (new localId addresses config) before
    let after := stepState svc (input, world)
    let hex := content.toKey.toHex
    let own (built : Nat) : ProviderRecord :=
      { contentKey := hex
        providerPeerId := Deps.toHex localId
        addresses := sortAndCapAddresses addresses
        expiresAt := saturatingAdd built config.providerTtlSecs
        unverifiedMirrorCoinId := after.providers.announcedCollateral hex }
    (after.handleRequestFrom now asker (.findProviders hex)).2 ≠ none →
      (∀ coin, input.op = .announceProviderWithCollateral content coin →
        now < saturatingAdd (input.clock 0) config.providerTtlSecs →
        (after.Finds now asker hex (own (input.clock 0)) ↔ svc.HasRoomFor [] hex)) ∧
      ∀ earlier later, input.op = .republish →
        input.keyOrder svc.providers.localAnnouncements = earlier ++ hex :: later →
        now < saturatingAdd (input.clock (2 * earlier.length)) config.providerTtlSecs →
        (after.Finds now asker hex (own (input.clock (2 * earlier.length))) ↔
          svc.HasRoomFor earlier hex) := by
  intro svc after hex own hserved
  have hvalid : svc.Valid := valid_exec localId addresses config before
  have hlimits : svc.providers.limits = config.providerStoreLimits :=
    limits_exec localId addresses config before
  have hprofile : svc.toNodeProfile = ⟨localId, addresses, config⟩ :=
    toNodeProfile_exec localId addresses config before
  have hcap : 1 ≤ svc.providers.limits.maxProvidersPerKey := by rwa [hlimits]
  have hconfig : svc.config = config := congrArg NodeProfile.config hprofile
  have hown : ∀ built, own built = svc.republishedRecord (after.providers.announcedCollateral hex)
      content.toKey built := by
    intro built
    rw [hprofile]
    rfl
  constructor
  · intro coin hop hsoon
    rw [hown]
    exact announce_served_iff hvalid world hop (by rwa [hconfig]) hserved
  · intro earlier later hop hkeys hsoon
    rw [hown]
    exact republish_served_iff hvalid hcap world hop hkeys (by rwa [hconfig]) hserved

end DhtService

end Findable

section Samples

attribute [local instance] sampleDeps

/-- A record for the sample content is stored under its key and found. -/
theorem accepted_record_found :
    ((DhtService.new (samplePeer 9) [] .default).handleRequestFrom 100 none
        (.addProvider (sampleRecord 211 200))).1.Finds 150 none sampleContent.toKey.toHex
      (sampleRecord 211 200) :=
  (DhtService.accepted_findable_iff (samplePeer 9) [] .default [] 100 150 none none
    (sampleRecord 211 200) (by decide +kernel) (by decide +kernel)).mpr
    ⟨rfl, sampleContent.toKey, rfl⟩

/-- Accepted and not found: a key in upper case is looked up as another
text, a key that is no hex is refused, and at `k = 0` asking panics. -/
theorem accepted_not_found :
    let accept (config : DhtConfig) (record : ProviderRecord) :=
      (DhtService.new (samplePeer 9) [] config).handleRequestFrom 100 none (.addProvider record)
    let ask (config : DhtConfig) (asker : Option Contact) (record : ProviderRecord) :=
      ((accept config record).1.handleRequestFrom 100 asker (.findProviders record.contentKey)).2
    let upper : ProviderRecord :=
      { sampleRecord 211 200 with contentKey := String.ofList (List.replicate 64 'A') }
    let text : ProviderRecord := { sampleRecord 211 200 with contentKey := "key" }
    let nobody : ProviderRecord := { sampleRecord 211 200 with providerPeerId := "" }
    ((accept .default upper).2 = some .addProviderOk ∧
        ask .default none upper = some (.providers [] [sampleContact 211])) ∧
      ((accept .default text).2 = some .addProviderOk ∧
        ask .default none text = some (.error 2 "bad content key")) ∧
      (accept { DhtConfig.default with k := 0 } nobody).2 = some .addProviderOk ∧
        ask { DhtConfig.default with k := 0 } (some (sampleContact 211)) nobody = none := by
  decide +kernel

/-- Announce the content, and republish it a minute later. -/
def announcingRun : List (Input × World) :=
  [(.at 100 (.announceProvider sampleContent), .silent), (.at 160 .republish, .silent)]

/-- A node with room serves what it announced and what it republished. -/
theorem announced_served :
    (exec stepState (.new (samplePeer 9) [] .default) (announcingRun.take 1)).Finds 150 none
        sampleContent.toKey.toHex (sampleRecord 9 7300) ∧
      (exec stepState (.new (samplePeer 9) [] .default) announcingRun).Finds 7300 none
        sampleContent.toKey.toHex (sampleRecord 9 7360) := by
  constructor
  · have hserved := ((DhtService.announced_served_iff (samplePeer 9) [] .default [] (by decide)
      sampleContent (.at 100 (.announceProvider sampleContent)) .silent none 150
      (by decide +kernel)).1 none rfl (by decide +kernel)).mpr (by decide +kernel)
    convert hserved using 1
    · rfl
    · decide +kernel
  · have hserved := ((DhtService.announced_served_iff (samplePeer 9) [] .default
      (announcingRun.take 1) (by decide) sampleContent (.at 160 .republish) .silent none 7300
      (by decide +kernel)).2 [] [] rfl (by decide +kernel) (by decide +kernel)).mpr
      (by decide +kernel)
    convert hserved using 1
    · rfl
    · decide +kernel

/-- A store that one stranger's record fills: the announcement is
remembered and never served, by the announce or by a republish. -/
theorem announced_not_served :
    let full := (DhtService.new (samplePeer 9) []
      { DhtConfig.default with providerStoreLimits := ⟨20, 1⟩ }).handleRequestFrom 100
        (some (sampleContact 211)) (.addProvider { sampleRecord 211 9999 with
          contentKey := Key.toHex ⟨List.Vector.replicate 32 1⟩ })
    let announced := exec stepState full.1 (announcingRun.take 1)
    let republished := exec stepState full.1 announcingRun
    full.2 = some .addProviderOk ∧
      announced.providers.localAnnouncements = [sampleContent.toKey.toHex] ∧
      (announced.handleRequestFrom 150 none (.findProviders sampleContent.toKey.toHex)).2 =
        some (.providers [] [sampleContact 211]) ∧
      (republished.handleRequestFrom 170 none (.findProviders sampleContent.toKey.toHex)).2 =
        some (.providers [] [sampleContact 211]) := by
  decide +kernel

end Samples

end DigDht.Service
